import ReactiveScript.Proofs.Ambient
import ReactiveScript.Proofs.Executions

/-!
# Runs in alike worlds

Two evaluations agree if from alike worlds they come to the same result and to alike worlds, each
with the stacks it started with. Whatever evaluations are put together from hands this on; only an
execution needs room for one more of them. Changes that look at no stack commute with leaving scopes
out.
-/

namespace ReactiveScript

variable {K : List ScopeId} {α β : Type}

namespace World

variable {w v : World}

theorem map_modify_of_comm {α β : Type} {f : α → β} {g : α → α} {g' : β → β} (a : Array α) (i : Nat)
    (h : ∀ x, a[i]? = some x → f (g x) = g' (f x)) :
    (a.modify i g).map f = (a.map f).modify i g' := by
  refine Array.ext_getElem? fun j => ?_
  simp only [Array.getElem?_map, Array.getElem?_modify]
  split
  · next same =>
    subst same
    cases hx : a[i]? with
    | none => rfl
    | some x => simp [h x hx]
  · rfl

theorem trim_modifyNode (w : World) (id : NodeId) {f g : Node → Node}
    (h : ∀ n, (f n).trim K = g (n.trim K)) :
    (w.modifyNode id f).trim K = (w.trim K).modifyNode id g := by
  have nodes : (w.nodes.modify (id - 1) f).map (Node.trim K) =
      (w.nodes.map (Node.trim K)).modify (id - 1) g := map_modify_of_comm _ _ fun n _ => h n
  simp only [World.trim, World.modifyNode, nodes]

theorem trim_modifyScope (w : World) (id : ScopeId) {f g : Scope → Scope}
    (h : ∀ s, (f s).trim K = g (s.trim K)) :
    (w.modifyScope id f).trim K = (w.trim K).modifyScope id g := by
  have scopes : ScopeTable.trim K (w.scopes.modify id f) = (w.scopes.trim K).modify id g :=
    map_modify_of_comm _ _ fun s _ => h s
  simp only [World.trim, World.modifyScope, scopes]

theorem trim_modifyResource (w : World) (id : ResourceId) {f g : Resource → Resource}
    (h : ∀ r, w.resource? id = some r → (f r).trim K = g (r.trim K)) :
    (w.modifyResource id f).trim K = (w.trim K).modifyResource id g := by
  have resources : (w.resources.modify id f).map (Resource.trim K) =
      (w.resources.map (Resource.trim K)).modify id g := map_modify_of_comm _ _ h
  simp only [World.trim, World.modifyResource, resources]

theorem trim_bind (w : World) (id : ScopeId) (name : String) (b : Binding) :
    World.trim K { w with scopes := w.scopes.bind id name b } =
      { w.trim K with scopes := (w.trim K).scopes.bind id name b } :=
  w.trim_modifyScope id (f := fun s => s.bind name b) fun _ => rfl

theorem trim_addScope (w : World) (s : Scope) :
    (w.addScope s).2.trim K = ((w.trim K).addScope (s.trim K)).2 := by
  simp only [World.addScope, World.trim, ScopeTable.trim, Array.map_push]

theorem trim_addChild (w : World) (parent : ScopeId) (name : String) :
    (w.addChild parent name).2.trim K = ((w.trim K).addChild parent name).2 := by
  rw [World.addChild, World.addChild, trim_addScope]
  have inherits : ((w.scopes[parent]?.getD default).childOf parent name).trim K =
      ((w.scopes.trim K)[parent]?.getD default).childOf parent name := by
    rw [ScopeTable.getElem?_trim]
    cases w.scopes[parent]? <;> rfl
  rw [inherits]
  rfl

theorem trim_report (w : World) (severity : Severity) (message : String)
    (fields : List (String × String)) :
    (w.report severity message fields).trim K = (w.trim K).report severity message fields := by
  unfold World.report
  show World.trim K (if w.context.reports then _ else _) = if w.context.reports then _ else _
  split <;> rfl

/-- The error of popping the first of two scopes before the second. -/
def outOfOrder (first second : String) : EvalError :=
  EvalError.scopeStackCorrupted
    ("expected scope '" ++ first ++ "' on top, found " ++ ("'" ++ second ++ "'"))

/-- The world after two new scopes were popped out of order. -/
def poppedOutOfOrder (w : World) (first second : String) : World :=
  let e := outOfOrder first second
  let added := ((w.addRoot first).2.addRoot second).2
  (added.report .error "scope stack corrupted" [("err", e.display)]).modifyContext fun c =>
    c.noteCorruption e

theorem trim_poppedOutOfOrder (w : World) (first second : String) :
    (w.poppedOutOfOrder first second).trim K = (w.trim K).poppedOutOfOrder first second := by
  have added : ((w.addRoot first).2.addRoot second).2.trim K =
      (((w.trim K).addRoot first).2.addRoot second).2 := by
    rw [addRoot, trim_addScope, addRoot, trim_addScope]
    rfl
  have reported := trim_report (K := K) ((w.addRoot first).2.addRoot second).2 .error
    "scope stack corrupted" [("err", (outOfOrder first second).display)]
  rw [added] at reported
  exact congrArg (fun w => w.modifyContext fun c => c.noteCorruption (outOfOrder first second))
    reported

/-- Popping new scopes out of order leaves the scopes that were active before. -/
theorem kept_poppedOutOfOrder (w : World) (first second : String) :
    (w.poppedOutOfOrder first second).context.scopes = w.context.scopes ∧
    (w.poppedOutOfOrder first second).context.calls = w.context.calls ∧
    (w.poppedOutOfOrder first second).inUse = w.inUse ∧
    (w.poppedOutOfOrder first second).settings = w.settings := by
  have frame := ((w.addRoot first).2.addRoot second).2.sameFrame_report .error
    "scope stack corrupted" [("err", (outOfOrder first second).display)]
  exact ⟨(congrArg Context.scopes frame.context :), (congrArg Context.calls frame.context :),
    frame.inUse, frame.settings⟩

theorem report_modifyContext (w : World) (severity : Severity) (message : String)
    (fields : List (String × String)) (scopes : ScopeStack) :
    (w.modifyContext fun c => { c with scopes }).report severity message fields =
      (w.report severity message fields).modifyContext fun c => { c with scopes } := by
  unfold World.report
  show (if w.context.reports then _ else _) = _
  split <;> rfl

end World

theorem Eval.popOutOfOrder_apply (first second : String) (perform : Task → Run Value) (w : World) :
    popOutOfOrder first second perform w = (.ok (), w.poppedOutOfOrder first second) := by
  let a := w.scopes.size
  let b := (w.addRoot first).2.scopes.size
  let added := ((w.addRoot first).2.addRoot second).2
  let under (scopes : ScopeStack) : World := added.modifyContext fun c => { c with scopes }
  have size : b = a + 1 := Array.size_push _
  have ran : popOutOfOrder first second perform w =
      (.ok (), ((under (b :: a :: w.context.scopes)).popScope a).popScope b) := rfl
  have first_name : added.scopes.name a = first := by
    have below : added.scopes[a]? = (w.scopes.push { name := first, parent := none })[a]? :=
      Array.getElem?_push.trans
        (if_neg (Nat.ne_of_lt (Nat.lt_of_lt_of_eq a.lt_succ_self size.symm)))
    rw [ScopeTable.name, below, Array.getElem?_push_size]
    rfl
  have second_name : added.scopes.name b = second := by
    rw [ScopeTable.name, show added.scopes[b]? = some { name := second, parent := none } from
      Array.getElem?_push_size]
    rfl
  have error : Context.popError added.scopes.name a (some b) = World.outOfOrder first second := by
    rw [Context.popError, first_name]
    simp only [second_name]
    rfl
  have overtaken : (under (b :: a :: w.context.scopes)).popScope a =
      ((under (b :: w.context.scopes)).report .error "scope stack corrupted"
        [("err", (World.outOfOrder first second).display)]).modifyContext fun c =>
          c.noteCorruption (World.outOfOrder first second) := by
    have found : (under (b :: a :: w.context.scopes)).context.pop added.scopes.name a =
        (some (World.outOfOrder first second), (under (b :: w.context.scopes)).context) := by
      rw [Context.pop, if_neg (by simp [under, World.modifyContext, Context.current?, size])]
      refine Prod.ext (congrArg some error) ?_
      simp [under, World.modifyContext, size]
    rw [World.popScope, show (under (b :: a :: w.context.scopes)).scopes = added.scopes from rfl,
      found]
    rfl
  have outside : (((under (b :: w.context.scopes)).report .error "scope stack corrupted"
      [("err", (World.outOfOrder first second).display)]).modifyContext fun c =>
        c.noteCorruption (World.outOfOrder first second)).context.scopes = b :: w.context.scopes :=
    congrArg Context.scopes (World.context_report _ _ _ _)
  rw [ran, overtaken, World.popScope_of_scopes outside, World.report_modifyContext]
  have scopes : (added.report .error "scope stack corrupted"
      [("err", (World.outOfOrder first second).display)]).context.scopes = w.context.scopes :=
    congrArg Context.scopes (World.context_report added _ _ _)
  rw [← scopes]
  rfl

/-- What comes of two runs that agree. -/
structure Agreement (K : List ScopeId) (w v : World) (x y : Except Interrupt α × World) : Prop where
  result : x.1 = y.1
  same : x.2.trim K = y.2.trim K
  left : w.Restored x.2
  right : v.Restored y.2

/-- Two runs agree from all alike worlds whose stacks are related. -/
def Run.Agree (S : ScopeStack → ScopeStack → Prop) (K : List ScopeId) (n : Nat) (x y : Run α) :
    Prop :=
  ∀ w v, World.AlikeFrom S K n w v → Agreement K w v (x w) (y v)

/-- Tasks that are the same apart from scopes that are left out are carried out alike where the
current scope is the same. -/
def Task.Agree (K : List ScopeId) (n : Nat) (perform perform' : Task → Run Value) : Prop :=
  ∀ t u : Task, t.trim K = u.trim K → t.Allowed Action.Lexical →
    Run.Agree (ScopeStack.Matches K) K n (perform t) (perform' u)

/-- Two evaluations agree from alike worlds whose stacks are related, with room for some executions
more than tasks need. -/
def Eval.AgreeFrom (S : ScopeStack → ScopeStack → Prop) (K : List ScopeId) (more : Nat)
    (x y : Eval α) : Prop :=
  ∀ n perform perform', Task.Agree K n perform perform' →
    Run.Agree S K (n + more) (x perform) (y perform')

/-- Two evaluations agree where the current scope is the same. -/
abbrev Eval.Agree (K : List ScopeId) : Nat → Eval α → Eval α → Prop :=
  AgreeFrom (ScopeStack.Matches K) K

namespace Eval.Agree

variable {S : ScopeStack → ScopeStack → Prop} {more : Nat} {x y : Eval α} {f g : α → Eval β}

theorem of_run (hx : ∀ n perform perform', Run.Agree S K n (x perform) (y perform')) :
    AgreeFrom S K more x y := fun _ _ _ _ => hx _ _ _

theorem pure (a : α) : AgreeFrom S K more (Pure.pure a) (Pure.pure a) :=
  of_run fun _ _ _ _ _ h => ⟨rfl, h.same, .refl h.left.allowed, .refl h.right.allowed⟩

theorem raise (e : EvalError) : AgreeFrom S K more (Eval.raise e : Eval α) (Eval.raise e) :=
  of_run fun _ _ _ _ _ h => ⟨rfl, h.same, .refl h.left.allowed, .refl h.right.allowed⟩

theorem bind (hx : AgreeFrom S K more x y) (hf : ∀ a, AgreeFrom S K more (f a) (g a)) :
    AgreeFrom S K more (x >>= f) (y >>= g) := by
  intro n perform perform' hp w v h
  have hx := hx n perform perform' hp w v h
  rw [bind_apply, bind_apply]
  generalize x perform w = p, y perform' v = q at hx
  obtain ⟨r, w₁⟩ := p
  obtain ⟨r', v₁⟩ := q
  obtain ⟨result, same, left, right⟩ := hx
  cases result
  cases r with
  | error i => exact ⟨rfl, same, left, right⟩
  | ok a =>
    have rest := hf a n perform perform' hp w₁ v₁ (h.after same left right)
    exact ⟨rest.result, rest.same, left.trans rest.left, right.trans rest.right⟩

theorem look {f g : World → Eval α}
    (hf : ∀ n w v, World.AlikeFrom S K n w v → AgreeFrom S K more (f w) (g v)) :
    AgreeFrom S K more (Eval.world >>= f) (Eval.world >>= g) :=
  fun n perform perform' hp w v h => hf _ w v h n perform perform' hp w v h

theorem change {f g : World → α × World}
    (hf : ∀ w, w.Allowed Action.Lexical → Change Action.Lexical w (f w).2)
    (hg : ∀ w, w.Allowed Action.Lexical → Change Action.Lexical w (g w).2)
    (same : ∀ n w v, World.AlikeFrom S K n w v →
      (f w).1 = (g v).1 ∧ (f w).2.trim K = (g v).2.trim K) :
    AgreeFrom S K more (modifyGet f) (modifyGet g) := by
  refine of_run fun n _ _ w v h => ?_
  obtain ⟨result, same⟩ := same n w v h
  exact ⟨congrArg Except.ok result, same, .of_change (hf w h.left.allowed) h.left.allowed,
    .of_change (hg v h.right.allowed) h.right.allowed⟩

/-- A change that does to a world without the scopes that are left out what it does to the world. -/
theorem write {f : World → α × World}
    (hf : ∀ w, w.Allowed Action.Lexical → Change Action.Lexical w (f w).2)
    (trim : ∀ w, f (World.trim K w) = ((f w).1, (f w).2.trim K)) :
    AgreeFrom S K more (modifyGet f) (modifyGet f) := by
  refine change hf hf fun n w v h => ?_
  have same : ((f w).1, (f w).2.trim K) = ((f v).1, (f v).2.trim K) := by
    rw [← trim, h.same, trim]
  exact Prod.mk.inj same

theorem modify {f : World → World}
    (hf : ∀ w, w.Allowed Action.Lexical → Change Action.Lexical w (f w))
    (trim : ∀ w, f (World.trim K w) = (f w).trim K) :
    AgreeFrom S K more (Eval.modify f) (Eval.modify f) :=
  write (f := fun w => ((), f w)) hf fun w => congrArg (Prod.mk ()) (trim w)

theorem perform {t u : Task} (h : t.trim K = u.trim K) (ht : t.Allowed Action.Lexical) :
    Agree K more (Eval.perform t) (Eval.perform u) :=
  fun n _ _ hp w v hw => hp t u h ht w v (hw.mono (Nat.le_add_right n more))

theorem attempt (hx : AgreeFrom S K more x y) :
    AgreeFrom S K more (Eval.attempt x) (Eval.attempt y) := by
  intro n perform perform' hp w v h
  have hx := hx n perform perform' hp w v h
  simp only [Eval.attempt]
  generalize x perform w = p, y perform' v = q at hx
  obtain ⟨r, w₁⟩ := p
  obtain ⟨r', v₁⟩ := q
  obtain ⟨result, same, left, right⟩ := hx
  cases result
  cases r with
  | ok a => exact ⟨rfl, same, left, right⟩
  | error i => cases i <;> exact ⟨rfl, same, left, right⟩

theorem ofExcept (r : Except EvalError α) :
    AgreeFrom S K more (Eval.ofExcept r) (Eval.ofExcept r) := by
  cases r with
  | ok a => exact pure a
  | error e => exact raise e

theorem raiseIf (e : Option EvalError) : AgreeFrom S K more (Eval.raiseIf e) (Eval.raiseIf e) := by
  cases e with
  | none => exact pure ()
  | some e => exact raise e

theorem note (e : Event) : AgreeFrom S K more (Eval.note e) (Eval.note e) :=
  modify (fun w _ => .note w e) fun _ => rfl

theorem report (severity : Severity) (message : String) (fields : List (String × String)) :
    AgreeFrom S K more (Eval.report severity message fields)
      (Eval.report severity message fields) :=
  modify (fun w _ => .report w severity message fields) fun w =>
    (w.trim_report severity message fields).symm

theorem currentScope? : Agree K more Eval.currentScope? Eval.currentScope? := by
  have looked : Eval.currentScope? = (Eval.world >>= fun w => Pure.pure w.context.current?) := rfl
  rw [looked]
  refine look fun n w v h => ?_
  rw [h.current?]
  exact pure _

/-- What is held for a while may differ in scopes that are left out. -/
theorem holding {held held' : List Held} (sub : ∀ a ∈ held, a ∈ held' ∨ a ∈ ScopeStack.held K)
    (sub' : ∀ a ∈ held', a ∈ held ∨ a ∈ ScopeStack.held K) (hx : AgreeFrom S K more x y) :
    AgreeFrom S K more (Eval.holding held x) (Eval.holding held' y) := by
  intro n perform perform' hp w v h
  have held_of {held held' : List Held} {w v : World} (grounded : v.Grounded K (n + more))
      (inUse : ∀ a ∈ w.inUse, a ∈ v.inUse) (sub : ∀ a ∈ held, a ∈ held' ∨ a ∈ ScopeStack.held K)
      (a : Held) (ha : a ∈ held ++ w.inUse) : a ∈ held' ++ v.inUse := by
    rw [List.mem_append] at ha ⊢
    rcases ha with ha | ha
    · exact (sub a ha).imp_right fun ha => grounded.held ha
    · exact .inr (inUse a ha)
  have entered : World.AlikeFrom S K (n + more) { w with inUse := held ++ w.inUse }
      { v with inUse := held' ++ v.inUse } :=
    ⟨h.same, h.scopes,
      fun a => ⟨held_of h.right (fun a => (h.inUse a).mp) sub a,
        held_of h.left (fun a => (h.inUse a).mpr) sub' a⟩,
      ⟨h.left.allowed.of_eq rfl rfl rfl,
        fun a ha => List.mem_append_right _ (h.left.held ha), h.left.room⟩,
      ⟨h.right.allowed.of_eq rfl rfl rfl,
        fun a ha => List.mem_append_right _ (h.right.held ha), h.right.room⟩⟩
  obtain ⟨result, same, left, right⟩ := hx n perform perform' hp _ _ entered
  refine ⟨result, same, ?_, ?_⟩
  · exact ⟨left.allowed.of_eq rfl rfl rfl, left.scopes, left.calls, rfl, left.settings⟩
  · exact ⟨right.allowed.of_eq rfl rfl rfl, right.scopes, right.calls, rfl, right.settings⟩

/-- Evaluating while the same things are held. -/
theorem holdingSame (held : List Held) (hx : AgreeFrom S K more x y) :
    AgreeFrom S K more (Eval.holding held x) (Eval.holding held y) :=
  holding (fun _ => .inl) (fun _ => .inl) hx

/-- Evaluating while a value or the like is held, and what callbacks hold besides. -/
theorem holdingAlso (first : List Held) {held held' : List Held}
    (sub : ∀ {a}, a ∈ held → a ∈ held' ∨ a ∈ ScopeStack.held K)
    (sub' : ∀ {a}, a ∈ held' → a ∈ held ∨ a ∈ ScopeStack.held K) (hx : AgreeFrom S K more x y) :
    AgreeFrom S K more (Eval.holding (first ++ held) x) (Eval.holding (first ++ held') y) := by
  have also {held held' : List Held} (sub : ∀ {a}, a ∈ held → a ∈ held' ∨ a ∈ ScopeStack.held K)
      (a : Held) (ha : a ∈ first ++ held) : a ∈ first ++ held' ∨ a ∈ ScopeStack.held K := by
    rw [List.mem_append] at ha ⊢
    rcases ha with ha | ha
    · exact .inl (.inl ha)
    · exact (sub ha).imp_left .inr
  exact holding (also sub) (also sub') hx

/-- Entering scopes after which the current scope is the same. -/
theorem entering {scopes scopes' : ScopeStack}
    (h : ∀ s t, S s t → ScopeStack.Matches K (scopes ++ s) (scopes' ++ t)) (hx : Agree K more x y) :
    AgreeFrom S K more (Eval.withScopes scopes x) (Eval.withScopes scopes' y) := by
  intro n perform perform' hp w v hw
  have entered : World.Alike K (n + more) (w.inScopes scopes) (v.inScopes scopes') := by
    rw [World.inScopes_eq, World.inScopes_eq]
    exact ⟨hw.same, h _ _ hw.scopes, hw.inUse,
      ⟨hw.left.allowed.of_eq rfl rfl rfl, hw.left.held, hw.left.room⟩,
      ⟨hw.right.allowed.of_eq rfl rfl rfl, hw.right.held, hw.right.room⟩⟩
  rw [withScopes_eq, withScopes_eq]
  have popped {scopes : ScopeStack} {w w' : World} (h : (w.inScopes scopes).Restored w') :
      w'.popAll scopes = w'.modifyContext (fun c => { c with scopes := w.context.scopes }) ∧
        w.Restored (w'.popAll scopes) := by
    rw [World.inScopes_eq] at h
    have popped : w'.popAll scopes =
        w'.modifyContext fun c => { c with scopes := w.context.scopes } :=
      World.popAll_of_scopes h.scopes
    exact ⟨popped, popped ▸ ⟨h.allowed.of_eq rfl rfl rfl, rfl, h.calls, h.inUse, h.settings⟩⟩
  obtain ⟨result, same, left, right⟩ := hx n perform perform' hp _ _ entered
  refine ⟨result, ?_, (popped left).2, (popped right).2⟩
  rw [(popped left).1, (popped right).1]
  exact same

/-- Entering scopes that are the same apart from those that are left out. -/
theorem withScopes {scopes scopes' : ScopeStack} (h : scopes.trim K = scopes'.trim K)
    (hx : Agree K more x y) :
    Agree K more (Eval.withScopes scopes x) (Eval.withScopes scopes' y) :=
  entering (fun _ _ => ScopeStack.trim_append h) hx

theorem withScope (scope : ScopeId) (hx : Agree K more x y) :
    Agree K more (Eval.withScope scope x) (Eval.withScope scope y) :=
  withScopes (rfl : ScopeStack.trim K [scope] = ScopeStack.trim K [scope]) hx

theorem onWorker {scopes scopes' : ScopeStack} (h : scopes.trim K = scopes'.trim K)
    (hx : Agree K more x y) :
    Agree K more (Eval.onWorker scopes x) (Eval.onWorker scopes' y) := by
  intro n perform perform' hp w v hw
  let line : Context := { reports := false, isWorker := true }
  have room {w : World} (h : w.Grounded K (n + more)) :
      0 + (n + more) < w.settings.maxRecursionDepth :=
    Nat.lt_of_le_of_lt (Nat.add_le_add_right (Nat.zero_le _) _) h.room
  have entered :
      World.Alike K (n + more) { w with context := line } { v with context := line } :=
    ⟨congrArg (fun w => { w with context := line }) hw.same, rfl, hw.inUse,
      ⟨hw.left.allowed.of_eq rfl rfl rfl, hw.left.held, @room w hw.left⟩,
      ⟨hw.right.allowed.of_eq rfl rfl rfl, hw.right.held, @room v hw.right⟩⟩
  obtain ⟨result, same, left, right⟩ := holding
    (fun _ => ScopeStack.held_subset_of_trim hw.scopes)
    (fun _ => ScopeStack.held_subset_of_trim hw.symm.scopes) (withScopes h hx) n perform perform' hp
    _ _ entered
  refine ⟨result, ?_, ?_, ?_⟩
  · have outside : { w.context with scopes := [], calls := CallStack.empty } =
        { v.context with scopes := [], calls := CallStack.empty } :=
      congrArg World.context hw.same
    exact congrArg₂ (fun w c => { w with context := c }) same outside
  · exact ⟨left.allowed.of_eq rfl rfl rfl, rfl, rfl, left.inUse, left.settings⟩
  · exact ⟨right.allowed.of_eq rfl rfl rfl, rfl, rfl, right.inUse, right.settings⟩

/-- Another execution under way takes the room of one. -/
theorem whileExecuting (id : NodeId) (hx : AgreeFrom S K more x y) :
    AgreeFrom S K (more + 1) (Eval.whileExecuting id x) (Eval.whileExecuting id y) := by
  intro n perform perform' hp w v hw
  have room {w : World} (h : w.Grounded K (n + (more + 1))) :
      w.context.calls.size + 1 + (n + more) < w.settings.maxRecursionDepth := by
    have := h.room
    omega
  have entered : World.AlikeFrom S K (n + more) (w.entering id) (v.entering id) :=
    ⟨hw.same, hw.scopes, hw.inUse,
      ⟨hw.left.allowed.of_eq rfl rfl rfl, hw.left.held, @room w hw.left⟩,
      ⟨hw.right.allowed.of_eq rfl rfl rfl, hw.right.held, @room v hw.right⟩⟩
  have left {w w' : World} (h : (w.entering id).Restored w') : w.Restored w'.leaving :=
    ⟨h.allowed.of_eq rfl rfl rfl, h.scopes,
      (congrArg CallStack.pop h.calls).trans (CallStack.pop_push _ _), h.inUse, h.settings⟩
  have agreement := hx n perform perform' hp _ _ entered
  exact ⟨agreement.result, agreement.same, left agreement.left, left agreement.right⟩

theorem takeCorruption : AgreeFrom S K more Eval.takeCorruption Eval.takeCorruption := by
  refine of_run fun n _ _ w v h => ?_
  have corruption : w.context.corruption = v.context.corruption :=
    congrArg (fun w => w.context.corruption) h.same
  exact ⟨congrArg Except.ok corruption, congrArg World.clearCorruption h.same,
    ⟨h.left.allowed.of_eq rfl rfl rfl, rfl, rfl, rfl, rfl⟩,
    ⟨h.right.allowed.of_eq rfl rfl rfl, rfl, rfl, rfl, rfl⟩⟩

theorem popOutOfOrder (first second : String) :
    AgreeFrom S K more (Eval.popOutOfOrder first second) (Eval.popOutOfOrder first second) := by
  have restored {w : World} (h : w.Allowed Action.Lexical) :
      w.Restored (w.poppedOutOfOrder first second) := by
    have added : ((w.addRoot first).2.addRoot second).2.Allowed Action.Lexical :=
      (h.addScope (Scope.allowed_new first none none)).addScope (Scope.allowed_new second none none)
    obtain ⟨scopes, calls, inUse, settings⟩ := w.kept_poppedOutOfOrder first second
    exact ⟨(added.report _ _ _).of_eq rfl rfl rfl, scopes, calls, inUse, settings⟩
  refine of_run fun n _ _ w v h => ?_
  rw [popOutOfOrder_apply, popOutOfOrder_apply]
  refine ⟨rfl, ?_, restored h.left.allowed, restored h.right.allowed⟩
  rw [World.trim_poppedOutOfOrder, h.same, World.trim_poppedOutOfOrder]

theorem whileNotifying (id : NodeId) {x y : Eval Value} (hx : AgreeFrom S K more x y) :
    AgreeFrom S K more (Eval.whileNotifying id x) (Eval.whileNotifying id y) := by
  intro n perform perform' hp w v h
  by_cases marked : w.context.isNotifying id
  · rw [whileNotifying_of_marked marked, whileNotifying_of_marked (h.isNotifying id ▸ marked)]
    exact ⟨rfl, congrArg (fun w => w.refuseNotify id) h.same,
      ⟨h.left.allowed.of_eq rfl rfl rfl, rfl, rfl, rfl, rfl⟩,
      ⟨h.right.allowed.of_eq rfl rfl rfl, rfl, rfl, rfl, rfl⟩⟩
  · rw [whileNotifying_of_not_marked marked,
      whileNotifying_of_not_marked (h.isNotifying id ▸ marked)]
    have entered : World.AlikeFrom S K (n + more) (w.enterNotify id) (v.enterNotify id) :=
      ⟨congrArg (fun w => w.enterNotify id) h.same, h.scopes, h.inUse,
        ⟨h.left.allowed.of_eq rfl rfl rfl, h.left.held, h.left.room⟩,
        ⟨h.right.allowed.of_eq rfl rfl rfl, h.right.held, h.right.room⟩⟩
    obtain ⟨result, same, left, right⟩ := hx n perform perform' hp _ _ entered
    exact ⟨result, congrArg (fun w => w.leaveNotify id) same,
      ⟨left.allowed.of_eq rfl rfl rfl, left.scopes, left.calls, left.inUse, left.settings⟩,
      ⟨right.allowed.of_eq rfl rfl rfl, right.scopes, right.calls, right.inUse, right.settings⟩⟩

end Eval.Agree
end ReactiveScript
