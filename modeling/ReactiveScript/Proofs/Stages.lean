import Mathlib.Data.List.Forall2
import ReactiveScript.Proofs.Levels

/-!
# Forcing in stages

What forcing a value to a depth comes to, if executing each node always has the same outcome. The
outcome at a depth tells the outcomes at all depths below and above: forcing to one depth and then
to another is forcing to the greater one.
-/

namespace ReactiveScript

namespace Value

/-- The values in a container, and how the container is put together with others in their places. -/
def parts? : Value → Option (List Value × (List Value → Value))
  | list items => some (items, list)
  | map entries =>
    some (OrderedMap.values entries, fun us => map ((OrderedMap.keys entries).zip us))
  | _ => none

section parts

variable {v : Value} {items us : List Value} {rebuild : List Value → Value}

/-- A container takes other values in their places, as many as it holds. -/
theorem parts?_rebuild (h : v.parts? = some (items, rebuild)) (length : items.length = us.length) :
    (rebuild us).parts? = some (us, rebuild) := by
  cases v with
  | list => cases h; rfl
  | map entries =>
    cases h
    have keys : (OrderedMap.keys entries).length = us.length := by
      simpa [OrderedMap.keys, OrderedMap.values] using length
    simp only [parts?, OrderedMap.values, OrderedMap.keys] at keys ⊢
    rw [List.map_fst_zip (Nat.le_of_eq keys), List.map_snd_zip (Nat.le_of_eq keys.symm)]
  | _ => cases h

theorem rebuild_parts (h : v.parts? = some (items, rebuild)) : rebuild items = v := by
  cases v with
  | list => cases h; rfl
  | map entries =>
    cases h
    exact congrArg map (List.zip_of_prod rfl rfl).symm
  | _ => cases h

end parts

/-- A value is neither a node nor tagged. -/
def Exposed : Value → Prop
  | node _ | tagged _ _ => False
  | _ => True

/-- A value is no node, nor is what is in its tag, which is its only one. -/
inductive Resolved : Value → Prop
  | exposed {v : Value} (h : v.Exposed) : Resolved v
  | tagged {v : Value} (h : v.Exposed) (m : Metadata) : Resolved (tagged v m)

theorem Exposed.withMetadata {v : Value} (h : v.Exposed) (m : Metadata) :
    v.withMetadata m = .tagged v m := by
  cases v <;> first | rfl | exact h.elim

theorem Resolved.withMetadata {v : Value} (h : v.Resolved) (m : Metadata) :
    (v.withMetadata m).Resolved := by
  cases h with
  | exposed h =>
    rw [h.withMetadata]
    exact .tagged h m
  | tagged h old => exact .tagged h (old.extend m)

theorem exposed_of_parts {v : Value} {p} (h : v.parts? = some p) : v.Exposed := by
  cases v <;> trivial

theorem IsDatum.exposed {v : Value} (h : v.IsDatum) : v.Exposed := by
  cases v <;> trivial

theorem IsDatum.parts?_eq {v : Value} (h : v.IsDatum) : v.parts? = none := by
  cases v <;> first | rfl | exact h.elim

end Value

variable {run : NodeId → Except EvalError Value}

/-- What forcing a value to a depth comes to, given what executing each node comes to. The children
of a container are forced in order up to the first one that raises an error. -/
inductive Forces (run : NodeId → Except EvalError Value) :
    Value → Nat → Except EvalError Value → Prop
  | zero (v : Value) : Forces run v 0 (.ok v)
  | node {n : NodeRef} {depth : Nat} {v : Value} {r : Except EvalError Value}
      (hn : run n.id = .ok v) (h : Forces run v (depth + 1) r) : Forces run (.node n) (depth + 1) r
  | node_error {n : NodeRef} {depth : Nat} {e : EvalError} (hn : run n.id = .error e) :
      Forces run (.node n) (depth + 1) (.error e)
  | tagged {v : Value} {depth : Nat} {r : Except EvalError Value} (m : Metadata)
      (h : Forces run v (depth + 1) r) :
      Forces run (.tagged v m) (depth + 1) (r.map fun u => u.withMetadata m)
  | parts {v : Value} {depth : Nat} {items us : List Value} {rebuild : List Value → Value}
      (hv : v.parts? = some (items, rebuild)) (length : items.length = us.length)
      (h : ∀ p ∈ items.zip us, Forces run p.1 depth (.ok p.2)) :
      Forces run v (depth + 1) (.ok (rebuild us))
  | parts_error {v u : Value} {depth : Nat} {before after us : List Value}
      {rebuild : List Value → Value} {e : EvalError}
      (hv : v.parts? = some (before ++ u :: after, rebuild)) (length : before.length = us.length)
      (h : ∀ p ∈ before.zip us, Forces run p.1 depth (.ok p.2))
      (hu : Forces run u depth (.error e)) : Forces run v (depth + 1) (.error e)
  | datum {v : Value} (h : v.IsDatum) (depth : Nat) : Forces run v (depth + 1) (.ok v)

/-- What forcing values in order comes to. -/
def ForcesAll (run : NodeId → Except EvalError Value) (items : List Value) (depth : Nat) :
    Except EvalError (List Value) → Prop
  | .ok us => List.Forall₂ (fun v u => Forces run v depth (.ok u)) items us
  | .error e => ∃ before u after us, items = before ++ u :: after ∧
      List.Forall₂ (fun v u => Forces run v depth (.ok u)) before us ∧
      Forces run u depth (.error e)

section inversion

variable {v : Value} {n : NodeRef} {m : Metadata} {depth : Nat} {r : Except EvalError Value}
  {items : List Value} {rebuild : List Value → Value}

theorem forces_zero : Forces run v 0 r ↔ r = .ok v := by
  constructor
  · rintro ⟨⟩
    rfl
  · rintro rfl
    exact .zero v

theorem forces_node : Forces run (.node n) (depth + 1) r ↔
    (∃ v, run n.id = .ok v ∧ Forces run v (depth + 1) r) ∨
      ∃ e, run n.id = .error e ∧ r = .error e := by
  constructor
  · rintro (_ | ⟨hn, h⟩ | hn | _ | ⟨hv, -, -⟩ | ⟨hv, -, -, -⟩ | h)
    · exact .inl ⟨_, hn, h⟩
    · exact .inr ⟨_, hn, rfl⟩
    · cases hv
    · cases hv
    · exact h.elim
  · rintro (⟨v, hn, h⟩ | ⟨e, hn, rfl⟩)
    · exact .node hn h
    · exact .node_error hn

theorem forces_tagged : Forces run (.tagged v m) (depth + 1) r ↔
    ∃ s, Forces run v (depth + 1) s ∧ r = s.map fun u => u.withMetadata m := by
  constructor
  · rintro (_ | _ | _ | ⟨_, h⟩ | ⟨hv, -, -⟩ | ⟨hv, -, -, -⟩ | h)
    · exact ⟨_, h, rfl⟩
    · cases hv
    · cases hv
    · exact h.elim
  · rintro ⟨s, h, rfl⟩
    exact .tagged m h

theorem forces_datum (h : v.IsDatum) : Forces run v depth r ↔ r = .ok v := by
  constructor
  · intro hr
    cases hr with
    | parts hv => cases h.parts?_eq.symm.trans hv
    | parts_error hv => cases h.parts?_eq.symm.trans hv
    | zero => rfl
    | datum => rfl
    | _ => exact h.elim
  · rintro rfl
    cases depth with
    | zero => exact .zero v
    | succ depth => exact .datum h depth

theorem forces_parts (hv : v.parts? = some (items, rebuild)) : Forces run v (depth + 1) r ↔
    ∃ s, ForcesAll run items depth s ∧ r = s.map rebuild := by
  constructor
  · intro h
    cases h with
    | @parts _ _ _ us _ hv' length h =>
      cases hv.symm.trans hv'
      exact ⟨.ok us, List.forall₂_iff_zip.mpr ⟨length, fun hp => h _ hp⟩, rfl⟩
    | @parts_error _ u _ before after us _ e hv' length h hu =>
      cases hv.symm.trans hv'
      exact ⟨.error e, ⟨before, u, after, us, rfl,
        List.forall₂_iff_zip.mpr ⟨length, fun hp => h _ hp⟩, hu⟩, rfl⟩
    | datum h => cases h.parts?_eq.symm.trans hv
    | _ => cases hv
  · rintro ⟨us | e, h, rfl⟩
    · obtain ⟨before, u, after, us, rfl, h, hu⟩ := h
      obtain ⟨length, h⟩ := List.forall₂_iff_zip.mp h
      exact .parts_error hv length (fun p hp => h hp) hu
    · obtain ⟨length, h⟩ := List.forall₂_iff_zip.mp h
      exact .parts hv length fun p hp => h hp

theorem forcesAll_nil {s : Except EvalError (List Value)} :
    ForcesAll run [] depth s ↔ s = .ok [] := by
  cases s with
  | ok us => simp [ForcesAll]
  | error e => simp [ForcesAll]

theorem forcesAll_zero {s : Except EvalError (List Value)} :
    ForcesAll run items 0 s ↔ s = .ok items := by
  cases s with
  | ok us =>
    have same : (fun v u : Value => Forces run v 0 (.ok u)) = (· = ·) := by
      funext v u
      simp [forces_zero, eq_comm]
    simp [ForcesAll, same, List.forall₂_eq_eq_eq, eq_comm]
  | error e => simp [ForcesAll, forces_zero]

theorem forcesAll_cons {rest : List Value} {s : Except EvalError (List Value)} :
    ForcesAll run (v :: rest) depth s ↔
      (∃ e, Forces run v depth (.error e) ∧ s = .error e) ∨
      ∃ u t, Forces run v depth (.ok u) ∧ ForcesAll run rest depth t ∧ s = t.map (u :: ·) := by
  constructor
  · cases s with
    | ok us =>
      rintro (_ | ⟨hv, hs⟩)
      exact .inr ⟨_, .ok _, hv, hs, rfl⟩
    | error e =>
      rintro ⟨before, u, after, us, split, hs, hu⟩
      cases hs with
      | nil =>
        cases split
        exact .inl ⟨e, hu, rfl⟩
      | cons hv hs =>
        cases split
        exact .inr ⟨_, .error e, hv, ⟨_, u, after, _, rfl, hs, hu⟩, rfl⟩
  · rintro (⟨e, hv, rfl⟩ | ⟨u, us | e, hv, hs, rfl⟩)
    · exact ⟨[], v, rest, [], rfl, .nil, hv⟩
    · obtain ⟨before, u', after, us, rfl, hs, hu⟩ := hs
      exact ⟨v :: before, u', after, u :: us, rfl, .cons hv hs, hu⟩
    · exact .cons hv hs

end inversion

section stages

variable {v x y : Value} {depth a b : Nat} {m : Metadata}

/-- What is left of a value is exposed where it was exposed before. -/
theorem Forces.exposed (h : Forces run v depth (.ok x)) (hv : v.Exposed) : x.Exposed := by
  generalize hr : Except.ok x = r at h
  cases h with
  | zero =>
    cases hr
    exact hv
  | parts hp length =>
    cases hr
    exact Value.exposed_of_parts (Value.parts?_rebuild hp length)
  | parts_error => cases hr
  | datum =>
    cases hr
    exact hv
  | _ => exact hv.elim

/-- Forcing leaves a value that is no node. -/
theorem Forces.resolved (h : Forces run v (depth + 1) (.ok x)) : x.Resolved := by
  generalize hd : depth + 1 = d, hr : Except.ok x = r at h
  induction h generalizing x with
  | zero => cases hd
  | node hn h ih => exact ih hd hr
  | node_error => cases hr
  | @tagged v d r m h ih =>
    cases r with
    | error e => cases hr
    | ok u =>
      cases hr
      exact (ih hd rfl).withMetadata m
  | parts hp length =>
    cases hr
    exact .exposed (Value.exposed_of_parts (Value.parts?_rebuild hp length))
  | parts_error => cases hr
  | datum h =>
    cases hr
    exact .exposed h.exposed

theorem map_eq_ok {α β : Type} {f : α → β} {r : Except EvalError α} {b : β} :
    r.map f = .ok b ↔ ∃ a, r = .ok a ∧ f a = b := by
  cases r <;> simp [Except.map]

theorem forces_tagged_ok : Forces run (.tagged v m) (depth + 1) (.ok y) ↔
    ∃ u, Forces run v (depth + 1) (.ok u) ∧ y = u.withMetadata m := by
  rw [forces_tagged]
  constructor
  · rintro ⟨s, h, hs⟩
    obtain ⟨u, rfl, rfl⟩ := map_eq_ok.mp hs.symm
    exact ⟨u, h, rfl⟩
  · rintro ⟨u, h, rfl⟩
    exact ⟨.ok u, h, rfl⟩

/-- Once a value is resolved, its tag is carried along. -/
theorem forces_withMetadata (hx : x.Resolved) : Forces run (x.withMetadata m) depth (.ok y) ↔
    ∃ u, Forces run x depth (.ok u) ∧ y = u.withMetadata m := by
  cases depth with
  | zero => simp [forces_zero]
  | succ depth =>
    cases hx with
    | exposed h => rw [h.withMetadata, forces_tagged_ok]
    | @tagged t h old =>
      show Forces run (.tagged t (old.extend m)) (depth + 1) (.ok y) ↔ _
      simp only [forces_tagged_ok]
      have joined {u : Value} (hu : Forces run t (depth + 1) (.ok u)) :
          (u.withMetadata old).withMetadata m = u.withMetadata (old.extend m) := by
        rw [(hu.exposed h).withMetadata, (hu.exposed h).withMetadata]
        rfl
      constructor
      · rintro ⟨u, hu, rfl⟩
        exact ⟨_, ⟨u, hu, rfl⟩, (joined hu).symm⟩
      · rintro ⟨_, ⟨u, hu, rfl⟩, rfl⟩
        exact ⟨u, hu, joined hu⟩

/-- Pairwise steps one after the other are pairwise two steps. -/
theorem forall₂_comp {α β γ : Type} {R : α → β → Prop} {S : β → γ → Prop} {l : List α}
    {n : List γ} : List.Forall₂ (fun a c => ∃ b, R a b ∧ S b c) l n ↔
      ∃ m, List.Forall₂ R l m ∧ List.Forall₂ S m n := by
  constructor
  · intro h
    induction h with
    | nil => exact ⟨[], .nil, .nil⟩
    | cons h _ ih =>
      obtain ⟨b, hr, hs⟩ := h
      obtain ⟨m, hrs, hss⟩ := ih
      exact ⟨b :: m, .cons hr hrs, .cons hs hss⟩
  · rintro ⟨m, hr, hs⟩
    induction hr generalizing n with
    | nil => cases hs; exact .nil
    | cons hr _ ih =>
      cases hs with
      | cons hs hss => exact .cons ⟨_, hr, hs⟩ (ih hss)

theorem exists_of_forall₂ {α β : Type} {R : α → β → Prop} {l : List α} {m : List β} {a : α}
    (h : List.Forall₂ R l m) (ha : a ∈ l) : ∃ b, R a b := by
  induction h with
  | nil => cases ha
  | cons hr _ ih =>
    rcases List.mem_cons.mp ha with rfl | ha
    · exact ⟨_, hr⟩
    · exact ih ha

theorem forces_parts_ok {items : List Value} {rebuild : List Value → Value}
    (hv : v.parts? = some (items, rebuild)) : Forces run v (depth + 1) (.ok y) ↔
      ∃ us, List.Forall₂ (fun v u => Forces run v depth (.ok u)) items us ∧ y = rebuild us := by
  rw [forces_parts hv]
  constructor
  · rintro ⟨s, h, hs⟩
    obtain ⟨us, rfl, rfl⟩ := map_eq_ok.mp hs.symm
    exact ⟨us, h, rfl⟩
  · rintro ⟨us, h, rfl⟩
    exact ⟨.ok us, h, rfl⟩

/-- Forcing to one depth and then to another is forcing to the greater one. -/
theorem Forces.then (h : Forces run v a (.ok x)) (h' : Forces run x b (.ok y)) :
    Forces run v (max a b) (.ok y) := by
  generalize hr : Except.ok x = r at h
  induction h generalizing x y b with
  | zero v =>
    cases hr
    rwa [Nat.zero_max]
  | @node n a v r hn _ ih =>
    obtain ⟨d, hd⟩ : ∃ d, max (a + 1) b = d + 1 := ⟨max (a + 1) b - 1, by omega⟩
    have rest := ih h' hr
    rw [hd] at rest ⊢
    exact .node hn rest
  | node_error => cases hr
  | @tagged v a r m h ih =>
    obtain ⟨u, rfl, rfl⟩ := map_eq_ok.mp hr.symm
    obtain ⟨d, hd⟩ : ∃ d, max (a + 1) b = d + 1 := ⟨max (a + 1) b - 1, by omega⟩
    obtain ⟨u', hu, rfl⟩ := (forces_withMetadata h.resolved).mp h'
    have rest := ih hu rfl
    rw [hd] at rest ⊢
    exact forces_tagged_ok.mpr ⟨u', rest, rfl⟩
  | @parts v a items us rebuild hv length h ih =>
    cases hr
    cases b with
    | zero =>
      cases forces_zero.mp h'
      exact .parts hv length h
    | succ b =>
      obtain ⟨ys, hys, rfl⟩ := (forces_parts_ok (Value.parts?_rebuild hv length)).mp h'
      rw [Nat.add_max_add_right]
      have stages : List.Forall₂ (fun v u => ∀ {y}, Forces run u b (.ok y) →
          Forces run v (max a b) (.ok y)) items us :=
        List.forall₂_iff_zip.mpr ⟨length, fun hp _ hy => ih _ hp hy rfl⟩
      refine (forces_parts_ok hv).mpr ⟨ys, ?_, rfl⟩
      exact (forall₂_comp.mpr ⟨us, stages, hys⟩).imp fun _ _ ⟨_, stage, hy⟩ => stage hy
  | parts_error => cases hr
  | @datum v h a =>
    cases hr
    cases (forces_datum h).mp h'
    exact (forces_datum h).mpr rfl

/-- Where the first depth is zero, all is left to the second one. -/
theorem forces_from_zero (h : Forces run v (max 0 b) (.ok y)) :
    ∃ x, Forces run v 0 (.ok x) ∧ Forces run x b (.ok y) :=
  ⟨v, .zero v, by rwa [Nat.zero_max] at h⟩

/-- What is forced to the greater depth comes by way of the value forced to one of them. -/
theorem Forces.between {c : Nat} {r : Except EvalError Value} (h : Forces run v c r)
    (hc : c = max a b) (hr : r = .ok y) :
    ∃ x, Forces run v a (.ok x) ∧ Forces run x b (.ok y) := by
  induction h generalizing a b y with
  | zero v =>
    cases hr
    obtain rfl : a = 0 := by omega
    exact forces_from_zero (hc ▸ .zero v)
  | @node n c v r hn h ih =>
    cases a with
    | zero => exact forces_from_zero (hc ▸ hr ▸ .node hn h)
    | succ a =>
      obtain ⟨x, hx, hy⟩ := ih hc hr
      exact ⟨x, .node hn hx, hy⟩
  | node_error => cases hr
  | @tagged v c r m h ih =>
    cases a with
    | zero => exact forces_from_zero (hc ▸ hr ▸ .tagged m h)
    | succ a =>
      obtain ⟨u, rfl, rfl⟩ := map_eq_ok.mp hr
      obtain ⟨x, hx, hu⟩ := ih hc rfl
      exact ⟨x.withMetadata m, forces_tagged_ok.mpr ⟨x, hx, rfl⟩,
        (forces_withMetadata hx.resolved).mpr ⟨u, hu, rfl⟩⟩
  | @parts v c items us rebuild hv length h ih =>
    cases hr
    cases a with
    | zero => exact forces_from_zero (hc ▸ .parts hv length h)
    | succ a =>
      cases b with
      | zero =>
        obtain rfl : c = a := by omega
        exact ⟨rebuild us, .parts hv length h, .zero _⟩
      | succ b =>
        have stages : List.Forall₂ (fun v u => ∃ x, Forces run v a (.ok x) ∧
            Forces run x b (.ok u)) items us :=
          List.forall₂_iff_zip.mpr ⟨length, fun hp => ih _ hp (by omega) rfl⟩
        obtain ⟨xs, hxs, hus⟩ := forall₂_comp.mp stages
        exact ⟨rebuild xs, (forces_parts_ok hv).mpr ⟨xs, hxs, rfl⟩,
          (forces_parts_ok (Value.parts?_rebuild hv hxs.length_eq)).mpr ⟨us, hus, rfl⟩⟩
  | parts_error => cases hr
  | @datum v h c =>
    cases hr
    exact ⟨v, (forces_datum h).mpr rfl, (forces_datum h).mpr rfl⟩

/-- Forcing in two stages comes to the same as forcing at once. -/
theorem forces_stages : (∃ x, Forces run v a (.ok x) ∧ Forces run x b (.ok y)) ↔
    Forces run v (max a b) (.ok y) :=
  ⟨fun ⟨_, hx, hy⟩ => hx.then hy, fun h => h.between rfl rfl⟩

end stages

/-- What forcing until no node is left comes to. -/
inductive ForcesDeep (run : NodeId → Except EvalError Value) :
    Value → Except EvalError Value → Prop
  | error {v : Value} {e : EvalError} (h : Forces run v unboundedDepth (.error e)) :
      ForcesDeep run v (.error e)
  | settled {v u : Value} (h : Forces run v unboundedDepth (.ok u)) (free : u.NodeFree) :
      ForcesDeep run v (.ok u)
  | again {v u : Value} {r : Except EvalError Value} (h : Forces run v unboundedDepth (.ok u))
      (more : ¬ u.NodeFree) (rest : ForcesDeep run u r) : ForcesDeep run v r

end ReactiveScript
