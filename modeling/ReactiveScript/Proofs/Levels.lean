import ReactiveScript.Proofs.Course
import ReactiveScript.Proofs.FailedAssignments
import ReactiveScript.Proofs.JsonTexts
import ReactiveScript.Proofs.Outcomes

/-!
# Levels of values

A value itself is level zero, and what is in a list or a map is one level deeper; tags do not count.
Forcing to a depth leaves no node on that many levels, however often nodes give containers of
further nodes. So what an assignment binds has no node on the levels that the settings ask for, now
and in every later delivery.
-/

namespace ReactiveScript

open Eval

namespace Value

/-- A value has a property if the parts of lists, maps and tags hand it on. -/
@[elab_as_elim]
theorem nestedInduction {P : Value → Prop} (datum : ∀ v : Value, v.IsDatum → P v)
    (node : ∀ n, P (.node n)) (list : ∀ items, (∀ v ∈ items, P v) → P (.list items))
    (map : ∀ entries, (∀ v ∈ OrderedMap.values entries, P v) → P (.map entries))
    (tagged : ∀ v m, P v → P (.tagged v m)) (v : Value) : P v :=
  @Value.rec P (fun items => ∀ v ∈ items, P v)
    (fun entries => ∀ v ∈ OrderedMap.values entries, P v) (fun e => P e.2)
    (fun _ => datum _ trivial) (fun _ => datum _ trivial) (fun _ => datum _ trivial)
    (datum _ trivial) (fun _ => datum _ trivial) (fun items h => list items h)
    (fun entries h => map entries h) (fun _ => datum _ trivial) (fun _ => datum _ trivial) node
    (fun _ => datum _ trivial) (fun v m h => tagged v m h) (List.forall_mem_nil _)
    (fun _ _ hv hs => List.forall_mem_cons.mpr ⟨hv, hs⟩) (List.forall_mem_nil _)
    (fun _ _ he hs => List.forall_mem_cons.mpr ⟨he, hs⟩) (fun _ _ h => h) v

/-- A node stands on a level of a value. -/
inductive NodeAt : Value → Nat → Prop
  | node (n : NodeRef) : NodeAt (node n) 0
  | item {items : List Value} {v : Value} {level : Nat} (hv : v ∈ items) (h : v.NodeAt level) :
      NodeAt (list items) (level + 1)
  | entry {entries : OrderedMap Value} {v : Value} {level : Nat} (hv : v ∈ entries.values)
      (h : v.NodeAt level) : NodeAt (map entries) (level + 1)
  | tagged {v : Value} {level : Nat} (m : Metadata) (h : v.NodeAt level) :
      NodeAt (tagged v m) level

/-- No node stands on the levels above a depth. -/
def SettledTo (depth : Nat) (v : Value) : Prop := ∀ level < depth, ¬ v.NodeAt level

theorem settledTo_zero (v : Value) : v.SettledTo 0 := nofun

theorem settledTo_datum {v : Value} (h : v.IsDatum) (depth : Nat) : v.SettledTo depth := by
  rintro _ _ ⟨⟩ <;> exact h

@[simp] theorem settledTo_list {items : List Value} {depth : Nat} :
    (list items).SettledTo (depth + 1) ↔ ∀ v ∈ items, v.SettledTo depth := by
  refine ⟨fun h v hv level hl at_ => h (level + 1) (by omega) (.item hv at_), ?_⟩
  rintro h _ hl (_ | ⟨hv, at_⟩)
  exact h _ hv _ (by omega) at_

@[simp] theorem settledTo_map {entries : OrderedMap Value} {depth : Nat} :
    (map entries).SettledTo (depth + 1) ↔ ∀ v ∈ entries.values, v.SettledTo depth := by
  refine ⟨fun h v hv level hl at_ => h (level + 1) (by omega) (.entry hv at_), ?_⟩
  rintro h _ hl (_ | _ | ⟨hv, at_⟩)
  exact h _ hv _ (by omega) at_

@[simp] theorem settledTo_tagged {v : Value} {m : Metadata} {depth : Nat} :
    (tagged v m).SettledTo depth ↔ v.SettledTo depth := by
  refine ⟨fun h level hl at_ => h level hl (.tagged m at_), fun h level hl at_ => ?_⟩
  cases at_ with
  | tagged _ at_ => exact h level hl at_

@[simp] theorem settledTo_withMetadata {v : Value} {m : Metadata} {depth : Nat} :
    (v.withMetadata m).SettledTo depth ↔ v.SettledTo depth := by
  cases v <;> simp only [withMetadata, settledTo_tagged]

/-- A node in a value stands somewhere inside. -/
theorem NodeAt.le_nesting {v : Value} {level : Nat} (h : v.NodeAt level) : level ≤ v.nesting := by
  induction h with
  | node n => exact Nat.le_refl _
  | @item items v level hv _ ih =>
    have deep : v.nesting + 1 ≤ (list items).nesting :=
      Nat.succ_le_succ (nesting_list_le.mp (Nat.le_refl _) v hv)
    omega
  | @entry entries v level hv _ ih =>
    have deep : v.nesting + 1 ≤ (map entries).nesting :=
      Nat.succ_le_succ (nesting_map_le.mp (Nat.le_refl _) v hv)
    omega
  | tagged m _ ih => exact ih

theorem nodeFree_of_forall_not_nodeAt (v : Value) : (∀ level, ¬ v.NodeAt level) → v.NodeFree := by
  induction v using nestedInduction with
  | datum v hv => exact fun _ => nodeFree_hereditary.datum hv
  | node n => exact fun h => absurd (.node n) (h 0)
  | list items ih =>
    exact fun h => nodeFree_list.mpr fun v hv => ih v hv fun level at_ => h _ (.item hv at_)
  | map entries ih =>
    exact fun h => nodeFree_map.mpr fun v hv => ih v hv fun level at_ => h _ (.entry hv at_)
  | tagged v m ih => exact fun h => ih fun level at_ => h _ (.tagged m at_)

/-- A value that is settled deeper than it is nested holds no node. -/
theorem SettledTo.nodeFree {v : Value} {depth : Nat} (h : v.SettledTo depth)
    (shallow : v.nesting < depth) : v.NodeFree :=
  nodeFree_of_forall_not_nodeAt v fun level at_ =>
    h level (Nat.lt_of_le_of_lt at_.le_nesting shallow) at_

/-- A container has no node in its own place. -/
theorem settledTo_of_le_one {v : Value} {depth : Nat} (h : ¬ v.NodeAt 0) (shallow : depth ≤ 1) :
    v.SettledTo depth := by
  intro level hl
  obtain rfl : level = 0 := by omega
  exact h

end Value

variable {α β : Type} {perform : Task → Run Value}

/-- Every result of an evaluation has a property, whatever world it starts in. -/
def Eval.Ensures (perform : Task → Run Value) (P : α → Prop) (x : Eval α) : Prop :=
  ∀ w a w', x perform w = (.ok a, w') → P a

namespace Eval.Ensures

variable {P : α → Prop} {Q : β → Prop} {x : Eval α} {f : α → Eval β}

theorem pure {a : α} (h : P a) : Ensures perform P (Pure.pure a) := by
  rintro w _ w' ⟨⟩
  exact h

theorem bind (hx : x.Ensures perform P) (hf : ∀ a, P a → (f a).Ensures perform Q) :
    (x >>= f).Ensures perform Q := by
  intro w b w' h
  obtain ⟨a, u, hu, h⟩ := exists_of_bind_ok h
  exact hf a (hx w a u hu) u b w' h

theorem trivially (x : Eval α) : x.Ensures perform fun _ => True := fun _ _ _ _ => trivial

theorem bracket (enter : World → World) (leave : World → World → World)
    (h : x.Ensures perform P) : (Eval.bracket enter leave x).Ensures perform P := by
  intro w a w' ran
  exact h (enter w) a (x perform (enter w)).2 (Prod.ext (congrArg Prod.fst ran :) rfl)

theorem holding (held : List Held) (h : x.Ensures perform P) :
    (Eval.holding held x).Ensures perform P := h.bracket _ fun w w' => { w' with inUse := w.inUse }

theorem withScopes (scopes : ScopeStack) (h : x.Ensures perform P) :
    (Eval.withScopes scopes x).Ensures perform P := by
  induction scopes generalizing x with
  | nil => exact h
  | cons scope outer ih => exact ih (h.bracket _ fun _ w' => w'.popScope scope)

theorem child (parallel single : Bool) (h : x.Ensures perform P) :
    (Eval.child parallel single x).Ensures perform P := by
  unfold Eval.child
  split
  · refine .bind (trivially _) fun c _ => ?_
    split
    · exact h.withScopes c.scopes
    · exact (h.withScopes c.scopes).bracket _
        fun w w' => { w' with context := w.context, inUse := w.inUse }
  · exact h

end Eval.Ensures

section forcing

open Value

mutual

/-- Forcing settles to the depth asked for, if executing and forcing nodes does. -/
theorem force_settles (hp : ∀ id depth parallel,
      (Eval.perform (.resolve id depth parallel)).Ensures perform (SettledTo depth))
    (parallel : Bool) (v : Value) (depth : Nat) :
    (force parallel v depth).Ensures perform (SettledTo depth) := by
  cases v with
  | node n =>
    unfold force
    split
    · next h => exact .pure (h ▸ settledTo_zero _)
    · exact hp n.id depth parallel
  | tagged v m =>
    unfold force
    split
    · next h => exact .pure (h ▸ settledTo_zero _)
    · exact .bind (force_settles hp parallel v depth) fun u hu =>
        .pure (settledTo_withMetadata.mpr hu)
  | list items =>
    unfold force
    split
    · next h => exact .pure (settledTo_of_le_one nofun h)
    · next h =>
      obtain ⟨depth, rfl⟩ : ∃ d, depth = d + 1 := ⟨depth - 1, by omega⟩
      exact .bind (forceItems_settles hp parallel _ items depth) fun us hus =>
        .pure (settledTo_list.mpr hus)
  | map entries =>
    unfold force
    split
    · next h => exact .pure (settledTo_of_le_one nofun h)
    · next h =>
      obtain ⟨depth, rfl⟩ : ∃ d, depth = d + 1 := ⟨depth - 1, by omega⟩
      exact .bind (forceEntries_settles hp parallel _ entries depth) fun us hus =>
        .pure (settledTo_map.mpr hus)
  | _ =>
    refine .pure (settledTo_datum ?_ depth)
    trivial

theorem forceItems_settles (hp : ∀ id depth parallel,
      (Eval.perform (.resolve id depth parallel)).Ensures perform (SettledTo depth))
    (parallel single : Bool) (items : List Value) (depth : Nat) :
    (forceItems parallel single items depth).Ensures perform
      fun us => ∀ u ∈ us, u.SettledTo depth := by
  cases items with
  | nil => exact .pure (List.forall_mem_nil _)
  | cons v rest =>
    refine .bind (.child parallel single (force_settles hp parallel v depth)) fun u hu => ?_
    exact .bind (.holding u.held (forceItems_settles hp parallel single rest depth)) fun us hus =>
      .pure (List.forall_mem_cons.mpr ⟨hu, hus⟩)

theorem forceEntries_settles (hp : ∀ id depth parallel,
      (Eval.perform (.resolve id depth parallel)).Ensures perform (SettledTo depth))
    (parallel single : Bool) (entries : List (String × Value))
    (depth : Nat) :
    (forceEntries parallel single entries depth).Ensures perform
      fun us => ∀ u ∈ OrderedMap.values us, u.SettledTo depth := by
  cases entries with
  | nil => exact .pure (List.forall_mem_nil _)
  | cons e rest =>
    obtain ⟨key, v⟩ := e
    refine .bind (.child parallel single (force_settles hp parallel v depth)) fun u hu => ?_
    exact .bind (.holding u.held (forceEntries_settles hp parallel single rest depth)) fun us hus =>
      .pure (List.forall_mem_cons.mpr ⟨hu, hus⟩)

end

end forcing

/-- What a node gives is forced again to the same depth, which takes less fuel. -/
theorem resolve_settles (fuel : Nat) (id : NodeId) (depth : Nat) (parallel : Bool) :
    (Eval.perform (.resolve id depth parallel)).Ensures (performWith fuel)
      (Value.SettledTo depth) := by
  induction fuel generalizing id depth parallel with
  | zero => exact fun _ _ _ h => nomatch h
  | succ fuel ih =>
    have settled : (resolve id depth parallel).Ensures (performWith fuel) (Value.SettledTo depth) :=
      .bind (.trivially (execute id)) fun v _ => .holding v.held (force_settles ih parallel v depth)
    exact settled

theorem forceAssigned_settles (fuel : Nat) (v : Value) {w w' : World} {u : Value}
    (h : forceAssigned v (performWith fuel) w = (.ok u, w')) :
    u.SettledTo w.settings.assignmentFixDepth :=
  force_settles (resolve_settles fuel) w.settings.parallel v w.settings.assignmentFixDepth w u w' h

section commits

variable {fuel : Nat} {c : Commit} {v u : Value} {w w' : World} {a : BindAttempt}

theorem World.settings_popScope (w : World) (s : ScopeId) :
    (w.popScope s).settings = w.settings := by
  unfold popScope
  split
  · rfl
  · next e context _ =>
    exact (World.sameFrame_report { w with context } .error "scope stack corrupted"
      [("err", e.display)]).settings

/-- No evaluation changes the settings. -/
def settingsKept : Discipline fun _ => True where
  inv _ := True
  rel w w' := w'.settings = w.settings
  refl _ := rfl
  trans h h' := h'.trans h
  change h _ := ⟨trivial, h.sameFrame.settings⟩
  enter _ _ := trivial
  leave {enter leave w w'} hb _ _ hr := by
    cases hb with
    | scope s => exact ⟨trivial, (w'.settings_popScope s).trans hr⟩
    | _ => exact ⟨trivial, hr⟩
  clearCorruption _ := ⟨trivial, rfl⟩
  popOutOfOrder _ _ _ :=
    ⟨trivial, (World.settings_popScope _ _).trans (World.settings_popScope _ _)⟩

theorem settingsKept_marks : settingsKept.Marks where
  refuse _ _ := ⟨trivial, rfl⟩
  enter _ _ := trivial
  leave _ _ _ hr := ⟨trivial, hr⟩

theorem Eval.Routine.settings_run {x : Eval α} (hx : x.Plain) (fuel : Nat) (w : World) :
    (x.run fuel w).2.settings = w.settings :=
  (settingsKept_marks.keeps_run fuel hx w ⟨w.allowed_of_forall fun _ => trivial, trivial⟩).2

theorem Eval.Protocol.prepare {p : Action → Prop} (c : Commit) (v : Value) :
    Protocol p (c.prepare v) := by
  refine .bind (reportUnlikelyType c) fun _ => ?_
  split
  · exact constrain _ _
  · exact .pure ()

theorem Eval.Protocol.forceAssigned {p : Action → Prop} (v : Value) :
    Protocol p (Eval.forceAssigned v) := .look fun _ _ => force _ v _

theorem Commit.Attempts.settings (h : c.Attempts (performWith fuel) v w a) :
    ∃ u, u.settings = w.settings ∧ Eval.forceAssigned v (performWith fuel) u =
      (.ok a.value, a.start) := by
  obtain ⟨u, prepared, forced⟩ := h.start
  have kept := (Protocol.prepare c v).routine.settings_run fuel w
  rw [Eval.run, prepared] at kept
  exact ⟨u, kept, forced⟩

/-- The attempt is one that a commit comes to, under settings that ask for a depth. -/
def BindAttempt.Committed (depth : Nat) (a : BindAttempt) : Prop :=
  ∃ fuel c v w, w.settings.assignmentFixDepth = depth ∧
    Commit.Attempts (performWith fuel) c v w a

theorem BindAttempt.Committed.settledTo {depth : Nat} (h : a.Committed depth) :
    a.value.SettledTo depth := by
  obtain ⟨fuel, c, v, w, rfl, attempts⟩ := h
  obtain ⟨u, same, forced⟩ := attempts.settings
  rw [← same]
  exact forceAssigned_settles fuel v forced

/-- What a name is bound to in a scope is a parameter or has no node above a depth. -/
def World.HoldsTo (w : World) (depth : Nat) (s : ScopeId) (name : String) : Prop :=
  ∀ b, w.scopes.localBinding? s name = some b → (∃ v, b = .parameter v) ∨ b.value.SettledTo depth

theorem Move.Legal.holdsTo {passes : BindAttempt → World → Prop} {m : Move} {depth : Nat}
    {s : ScopeId} {name : String} (legal : m.Legal passes)
    (committed : ∀ a, m.incident = .written a → a.target = s → a.name = name → a.Committed depth)
    (h : m.before.world.HoldsTo depth s name) : m.after.world.HoldsTo depth s name := by
  intro b hb
  rcases Nat.lt_or_ge s m.before.world.scopes.size with hs | hs
  · rcases legal.localBinding?_cases hs name with
      ⟨a, written, target, named, -, -, -, bound⟩ | ⟨v, -, bound⟩ | ⟨-, same⟩
    · cases bound.symm.trans hb
      exact .inr (committed a written target named).settledTo
    · cases bound.symm.trans hb
      exact .inl ⟨v, rfl⟩
    · exact h b (same ▸ hb)
  · rw [ScopeTable.localBinding?_of_size_le (legal.size_eq ▸ hs)] at hb
    cases hb

theorem World.HoldsTo.quiet {depth : Nat} {s : ScopeId} {name : String}
    (h : w.HoldsTo depth s name) (hq : w.scopes.Quiet w'.scopes) : w'.HoldsTo depth s name := by
  intro b hb
  rcases Nat.lt_or_ge s w.scopes.size with hs | hs
  · exact h b (hq.binding s hs name ▸ hb)
  · exact .inl (hq.fresh s name b hs hb)

/-- A variable that only commits write to is settled to their depth all along a path. -/
theorem Path.holdsTo {passes : BindAttempt → World → Prop} {t t' : Traffic} {moves : List Move}
    {depth : Nat} {s : ScopeId} {name : String} (h : Path passes t moves t')
    (start : t.world.HoldsTo depth s name)
    (committed : ∀ m ∈ moves, ∀ a, m.incident = .written a → a.target = s → a.name = name →
      a.Committed depth) :
    (∀ m ∈ moves, m.before.world.HoldsTo depth s name ∧ m.after.world.HoldsTo depth s name) ∧
      t'.world.HoldsTo depth s name :=
  h.keeps (I := fun t => t.world.HoldsTo depth s name) start (fun hq h => h.quiet hq)
    fun m hm legal h => legal.holdsTo (committed m hm) h

/-- A call that binds a name writes its attempt, and then calls the listeners. -/
theorem Eval.course_bindName (underWay : List BindAttempt) {scope : ScopeId} {name : String}
    {options : BindOptions}
    (h : (Eval.bind scope name v options).run fuel w = (.ok u, w')) :
    u = v ∧ ∃ moves, Course fuel underWay (Eval.bind scope name v options) w moves ∧
      ∃ m ∈ moves, m.incident = .written (w.attempt scope name v options) := by
  have ends : (w.attempt scope name v options).Ends (performWith fuel) (.ok u) w' := by
    have ends := @bindName_ends (performWith fuel) scope name v options w
    rwa [show Eval.bind scope name v options (performWith fuel) w = (.ok u, w') from h] at ends
  cases ends with
  | bound free checked unbarred announced =>
    obtain ⟨checking, check, -⟩ := (Protocol.check _).procedure.course fuel (_ :: underWay) w
    obtain ⟨announcing, announce, -⟩ :=
      (Protocol.announceBinding _).procedure.course fuel underWay _
    exact ⟨rfl, _, .written rfl free check checked unbarred announce, _,
      List.mem_append_right _ List.mem_cons_self, rfl⟩

/-- A move on the course of what follows is on the course of the whole. -/
theorem Course.exists_after {underWay : List BindAttempt} {x : Eval α} {f : α → Eval β} {b : α}
    {P : Move → Prop} (hx : Procedure (fun _ => True) x) (result : x.run fuel w = (.ok b, w'))
    (h : ∃ moves, Course fuel underWay (f b) w' moves ∧ ∃ m ∈ moves, P m) :
    ∃ moves, Course fuel underWay (x >>= f) w moves ∧ ∃ m ∈ moves, P m := by
  obtain ⟨before, hb, -⟩ := hx.course fuel underWay w
  obtain ⟨moves, hm, m, mem, hP⟩ := h
  exact ⟨_, .bind_ok hb result hm, m, List.mem_append_right before mem, hP⟩

/-- A commit that binds its value comes to an attempt, which it writes. -/
theorem Eval.course_commit (underWay : List BindAttempt)
    (h : (commit c v).run fuel w = (.ok u, w')) (bound : ¬ u.isError) :
    ∃ a, c.Attempts (performWith fuel) v w a ∧ a.name = c.target ∧ a.value = u ∧
      ∃ moves, Course fuel underWay (commit c v) w moves ∧
        ∃ m ∈ moves, m.incident = .written a := by
  have ends := c.ends (performWith fuel) v w
  rw [show commit c v (performWith fuel) w = (.ok u, w') from h] at ends
  obtain ⟨ending, ends⟩ := ends
  cases ends with
  | errorValue _ _ he => exact absurd he bound
  | @bound a _ w' attempted =>
    obtain ⟨u, prepared, forced⟩ := attempted.start
    obtain ⟨s, current, made⟩ := attempted.attempt
    have named : a.name = c.target := by rw [made]; rfl
    have found : commitScope c (performWith fuel) w = (.ok s, w) := commitScope_apply current
    refine ⟨a, attempted, named, rfl, ?_⟩
    rw [commit_eq] at h ⊢
    obtain ⟨_, _, ⟨⟩, h⟩ := exists_of_bind_ok h
    by_cases reserved : w.isReserved c.target
    · simp only [reserved, if_true] at h
      cases h
    simp only [reserved, Bool.false_eq_true, if_false] at h
    rw [bind_of_ok found, bind_of_ok prepared, bind_of_ok forced, Commit.conclude,
      if_neg attempted.not_error] at h
    obtain ⟨value, u', wrote, -⟩ := exists_of_bind_ok h
    have looked : Procedure (fun _ => True) Eval.world :=
      (Protocol.look fun w _ => .pure w : Protocol _ (Eval.world >>= pure)).procedure
    refine Course.exists_after looked rfl ?_
    simp only [reserved, Bool.false_eq_true, if_false]
    refine Course.exists_after (Protocol.commitScope c).procedure found ?_
    refine Course.exists_after (Protocol.prepare c v).procedure prepared ?_
    refine Course.exists_after (Protocol.forceAssigned v).procedure forced ?_
    rw [Commit.conclude, if_neg attempted.not_error]
    obtain ⟨-, moves, course, m, mem, written⟩ := course_bindName underWay wrote
    rw [← made] at written
    have publish : Procedure (fun _ => True) (do
        if c.exported then publishBinding c.target value
        return value) := by
      split
      · exact .bind (Protocol.publishBinding c.target value).procedure fun _ => .pure value
      · exact .pure value
    obtain ⟨publishing, published, -⟩ := publish.course fuel underWay u'
    exact ⟨_, .bind_ok course wrote published, m, List.mem_append_left publishing mem, written⟩

end commits

section nodeFree

open Value

/-- No tag stands directly in another one. -/
inductive Value.TagsJoined : Value → Prop
  | datum {v : Value} (h : v.IsDatum) : TagsJoined v
  | node (n : NodeRef) : TagsJoined (node n)
  | list {items : List Value} (h : ∀ v ∈ items, v.TagsJoined) : TagsJoined (list items)
  | map {entries : OrderedMap Value} (h : ∀ v ∈ entries.values, v.TagsJoined) :
      TagsJoined (map entries)
  | tagged {v : Value} (m : Metadata) (single : v.metadata? = none) (h : v.TagsJoined) :
      TagsJoined (tagged v m)

/-- Attaching metadata joins the tags. -/
theorem Value.TagsJoined.withMetadata {v : Value} (h : v.TagsJoined) (m : Metadata) :
    (v.withMetadata m).TagsJoined := by
  cases h with
  | tagged old single h => exact .tagged _ single h
  | datum hv => cases v <;> first | exact .tagged m rfl (.datum hv) | exact hv.elim
  | node n => exact .tagged m rfl (.node n)
  | list h => exact .tagged m rfl (.list h)
  | map h => exact .tagged m rfl (.map h)

theorem Value.TagsJoined.untagged {v : Value} (h : v.TagsJoined) : v.untagged.TagsJoined := by
  induction h with
  | @datum v h => cases v <;> first | exact .datum h | exact h.elim
  | node n => exact .node n
  | list h => exact .list h
  | map h => exact .map h
  | tagged m single h ih => exact ih

theorem Value.withMetadata_of_untagged {v : Value} (h : v.metadata? = none) (m : Metadata) :
    v.withMetadata m = .tagged v m := by
  cases v <;> first | rfl | cases h

/-- Items that forcing leaves as they are make a list that it leaves as it is. -/
theorem forceItems_eq_pure {parallel : Bool} {depth : Nat} (single : Bool) {items : List Value}
    (h : ∀ v ∈ items, force parallel v depth = pure v) :
    forceItems parallel single items depth = pure items := by
  induction items with
  | nil => rfl
  | cons v rest ih =>
    obtain ⟨hv, hrest⟩ := List.forall_mem_cons.mp h
    rw [forceItems, hv, ih hrest, child_pure]
    rfl

theorem forceEntries_eq_pure {parallel : Bool} {depth : Nat} (single : Bool)
    {entries : OrderedMap Value}
    (h : ∀ v ∈ entries.values, force parallel v depth = pure v) :
    forceEntries parallel single entries depth = pure entries := by
  induction entries with
  | nil => rfl
  | cons e rest ih =>
    obtain ⟨hv, hrest⟩ := List.forall_mem_cons.mp h
    rw [forceEntries, hv, ih hrest, child_pure]
    rfl

/-- Forcing a value without nodes does nothing, if there are no tags to join. -/
theorem force_eq_pure {v : Value} (joined : v.TagsJoined) (free : v.NodeFree) (parallel : Bool)
    (depth : Nat) : force parallel v depth = pure v := by
  induction joined generalizing depth with
  | @datum v h => cases v <;> first | rfl | exact h.elim
  | node n => cases free
  | @list items _ ih =>
    unfold force
    split
    · rfl
    · rw [forceItems_eq_pure _ fun v hv => ih v hv (nodeFree_list.mp free v hv) _]
      rfl
  | @map entries _ ih =>
    unfold force
    split
    · rfl
    · rw [forceEntries_eq_pure _ fun v hv => ih v hv (nodeFree_map.mp free v hv) _]
      rfl
  | @tagged v m single _ ih =>
    unfold force
    split
    · rfl
    · rw [ih free, pure_bind, withMetadata_of_untagged single]

theorem fixDeep_eq_pure {v : Value} (joined : v.TagsJoined) (free : v.NodeFree) :
    Eval.fixDeep v = pure v := by
  rw [Eval.fixDeep, forceDeep, force_eq_pure joined free, pure_bind,
    show v.containsNode = false from free]
  rfl

end nodeFree

/-- Forcing settles the levels that it is asked for. What it gives at a depth has no node on the
levels above, and so none at all if it is nested less deep. A commit that binds its value writes an
attempt with a value settled to the depth of the settings; and all along a path, a variable to which
only such attempts write is bound to a value settled to that depth. A value without nodes is forced
to itself at every depth. -/
theorem forcing_settles_levels :
    (∀ (fuel : Nat) (parallel : Bool) (v : Value) (depth : Nat) (w : World) (u : Value)
      (w' : World), (force parallel v depth).run fuel w = (.ok u, w') →
        u.SettledTo depth ∧ (u.nesting < depth → u.NodeFree)) ∧
    (∀ (fuel : Nat) (c : Commit) (v : Value) (w : World) (u : Value) (w' : World),
      (commit c v).run fuel w = (.ok u, w') → ¬ u.isError →
        u.SettledTo w.settings.assignmentFixDepth ∧
        ∀ underWay, ∃ moves, Course fuel underWay (commit c v) w moves ∧
          ∃ m ∈ moves, ∃ a : BindAttempt, m.incident = .written a ∧ a.name = c.target ∧
            a.value = u ∧ a.Committed w.settings.assignmentFixDepth) ∧
    (∀ {passes : BindAttempt → World → Prop} {t t' : Traffic} {moves : List Move},
      Path passes t moves t' → ∀ (depth : Nat) (s : ScopeId) (name : String),
        t.world.HoldsTo depth s name →
        (∀ m ∈ moves, ∀ a, m.incident = .written a → a.target = s → a.name = name →
          a.Committed depth) →
        (∀ m ∈ moves, m.before.world.HoldsTo depth s name ∧
          m.after.world.HoldsTo depth s name) ∧ t'.world.HoldsTo depth s name) ∧
    (∀ (parallel : Bool) (v : Value) (depth : Nat), v.NodeFree →
      ∃ u, force parallel v depth = pure u ∧ u.bare = v.bare ∧ (v.TagsJoined → u = v)) ∧
    (∀ (v : Value) (m : Metadata), v.TagsJoined → (v.withMetadata m).TagsJoined) := by
  refine ⟨fun fuel parallel v depth w u w' h => ?_, fun fuel c v w u w' h bound => ?_,
    fun h depth s name start committed => h.holdsTo start committed,
    fun parallel v depth free => ?_, fun _ m joined => joined.withMetadata m⟩
  · have settled : u.SettledTo depth :=
      force_settles (resolve_settles fuel) parallel v depth w u w' h
    exact ⟨settled, settled.nodeFree⟩
  · have committed {a : BindAttempt} (h : c.Attempts (performWith fuel) v w a) :
        a.Committed w.settings.assignmentFixDepth := ⟨fuel, c, v, w, rfl, h⟩
    refine ⟨?_, fun underWay => ?_⟩
    · obtain ⟨a, attempts, -, rfl, -⟩ := course_commit [] h bound
      exact (committed attempts).settledTo
    · obtain ⟨a, attempts, named, given, moves, course, m, mem, written⟩ :=
        course_commit underWay h bound
      exact ⟨moves, course, m, mem, a, written, named, given, committed attempts⟩
  · by_cases joined : v.TagsJoined
    · exact ⟨v, force_eq_pure joined free parallel depth, rfl, fun _ => rfl⟩
    · obtain ⟨u, forced, same⟩ := force_nodeFree parallel v free depth
      exact ⟨u, forced, same, fun h => absurd h joined⟩

/-- A node that gives another one two levels down, and the other one, which gives a number. -/
def nestedWorld : World :=
  { scriptRoot with
    nodes := #[
      { operation := "nested", source := Segment.unknown, inputs := [], flags := {}
        body := .program [.yield (.list [.list [.node ⟨2, "five"⟩]])]
        captured := none, trigger := .inputs },
      { operation := "five", source := Segment.unknown, inputs := [], flags := {}
        body := .program [.yield (.int 5)], captured := none, trigger := .inputs }] }

def nestedCommit : Commit := { target := "x", options := {}, exported := false, source := none }

/-- The attempt to bind what the node gives at the depth of the settings. -/
def nestedAttempt : BindAttempt :=
  (forceAssigned (.node ⟨1, "nested"⟩) (performWith 2) nestedWorld).2.attempt 0 "x"
    (.list [.list [.node ⟨2, "five"⟩]]) {}

theorem nestedAttempt_committed : nestedAttempt.Committed 2 :=
  ⟨2, nestedCommit, .node ⟨1, "nested"⟩, nestedWorld, rfl, ⟨nestedWorld, rfl, rfl⟩, ⟨0, rfl, rfl⟩,
    nofun⟩

theorem Eval.run_of_result {x : Eval α} {fuel : Nat} {w : World} {r : Except Interrupt α}
    (h : (x.run fuel w).1 = r) : x.run fuel w = (r, (x.run fuel w).2) := by
  rw [← h]

theorem nested_levels_settle :
    Value.NodeFree (.int 5) ∧
    Value.SettledTo 2 (.list [.list [.node ⟨2, "five"⟩]]) ∧
    (nestedAttempt.write nestedWorld).HoldsTo 2 0 "x" ∧
    force true (.list [.list [.int 5]]) 7 = pure (.list [.list [.int 5]]) := by
  obtain ⟨forced, commits, paths, free, -⟩ := forcing_settles_levels
  refine ⟨?_, ?_, ?_, ?_⟩
  · have five : ((force false (.node ⟨2, "five"⟩) 1).run 2 nestedWorld).1 = .ok (.int 5) := rfl
    exact (forced 2 false _ 1 nestedWorld _ _ (run_of_result five)).2 (by decide)
  · have bound : ((commit nestedCommit (.list [.list [.node ⟨2, "five"⟩]])).run 2 nestedWorld).1 =
        .ok (.list [.list [.node ⟨2, "five"⟩]]) := rfl
    exact (commits 2 nestedCommit _ nestedWorld _ _ (run_of_result bound) nofun).1
  · have unbarred : ¬ nestedAttempt.Barred nestedWorld := nofun
    have unbound : nestedWorld.HoldsTo 2 0 "x" := nofun
    have written : Path (fun _ _ => True) ⟨nestedWorld, [nestedAttempt]⟩
        [⟨⟨nestedWorld, [nestedAttempt]⟩, .written nestedAttempt,
          ⟨nestedAttempt.write nestedWorld, []⟩⟩]
        ⟨nestedAttempt.write nestedWorld, []⟩ :=
      .single (.written nestedWorld [] [] nestedAttempt trivial unbarred)
    refine (paths written 2 0 "x" unbound fun m hm a ha _ _ => ?_).2
    cases List.mem_singleton.mp hm
    cases ha
    exact nestedAttempt_committed
  · have joined : Value.TagsJoined (.list [.list [.int 5]]) := by
      refine .list fun v hv => ?_
      cases List.mem_singleton.mp hv
      refine .list fun v hv => ?_
      cases List.mem_singleton.mp hv
      exact .datum trivial
    obtain ⟨u, forced, -, same⟩ := free true (.list [.list [.int 5]]) 7 rfl
    rw [forced, same joined]

end ReactiveScript
