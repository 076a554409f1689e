import Mathlib.Data.List.Forall2
import ReactiveScript.Proofs.Reachability

/-!
# Marks and guards of notifications

A node is marked exactly as long as the innermost guard of the node has not been overtaken, in every
context that comes up. A notification of a node that is under way is therefore skipped once, which
overtakes its guard, and the next one is carried out. In between, guards stay in place.
-/

namespace ReactiveScript

open Eval

namespace NotifyGuard

/-- A guard at a later time: it may have been overtaken meanwhile. -/
structure Later (g g' : NotifyGuard) : Prop where
  node : g'.node = g.node
  overtaken : g.overtaken → g'.overtaken

theorem Later.refl (g : NotifyGuard) : g.Later g := ⟨rfl, id⟩

theorem Later.trans {g g' g'' : NotifyGuard} (h : g.Later g') (h' : g'.Later g'') : g.Later g'' :=
  ⟨h'.node.trans h.node, fun ho => h'.overtaken (h.overtaken ho)⟩

theorem later_overtake (node : NodeId) (g : NotifyGuard) : g.Later (g.overtake node) :=
  ⟨rfl, fun h => by simp [overtake, h]⟩

end NotifyGuard

/-- Guards in the same places at a later time. -/
abbrev LaterGuards := List.Forall₂ NotifyGuard.Later

theorem LaterGuards.refl (guards : List NotifyGuard) : LaterGuards guards guards :=
  List.forall₂_same.mpr fun g _ => .refl g

theorem LaterGuards.trans {a b c : List NotifyGuard} (h : LaterGuards a b)
    (h' : LaterGuards b c) : LaterGuards a c := by
  induction h generalizing c with
  | nil => exact h'
  | cons hg _ ih =>
    cases h' with
    | cons hg' h' => exact .cons (hg.trans hg') (ih h')

theorem laterGuards_overtake (node : NodeId) (guards : List NotifyGuard) :
    LaterGuards guards (guards.map (NotifyGuard.overtake node)) := by
  induction guards with
  | nil => exact .nil
  | cons g rest ih => exact .cons (g.later_overtake node) ih

/-- The nodes whose mark a guard still has in hand, the innermost first. -/
def markedBy (guards : List NotifyGuard) : List NodeId :=
  (guards.filter fun g => !g.overtaken).map NotifyGuard.node

theorem mem_markedBy {guards : List NotifyGuard} {id : NodeId} :
    id ∈ markedBy guards ↔ { node := id } ∈ guards := by
  simp only [markedBy, List.mem_map, List.mem_filter, Bool.not_eq_true']
  constructor
  · rintro ⟨⟨node, overtaken⟩, ⟨hg, rfl⟩, rfl⟩
    exact hg
  · exact fun h => ⟨_, ⟨h, rfl⟩, rfl⟩

theorem markedBy_overtake (id : NodeId) (guards : List NotifyGuard) :
    markedBy (guards.map (NotifyGuard.overtake id)) = (markedBy guards).filter (· != id) := by
  induction guards with
  | nil => rfl
  | cons g rest ih =>
    obtain ⟨node, overtaken⟩ := g
    simp only [markedBy, List.map_cons] at ih ⊢
    cases overtaken
    · by_cases h : node = id
      · simpa [NotifyGuard.overtake, h] using ih
      · simpa [NotifyGuard.overtake, h] using ih
    · simpa [NotifyGuard.overtake] using ih

/-- The marks of a context are those that its guards have in hand, and of several guards of one node
only the innermost one can have it in hand. -/
structure Context.Accounted (c : Context) : Prop where
  marks : c.notifying = markedBy c.guards
  nested : c.guards.Pairwise fun g outer => g.node = outer.node → outer.overtaken

namespace Context

variable {c : Context} {id : NodeId}

theorem accounted_of_nothing (h : c.notifying = []) (h' : c.guards = []) : c.Accounted :=
  ⟨by simp [h, h', markedBy], by simp [h']⟩

theorem Accounted.congr {c' : Context} (h : c.Accounted) (hm : c'.notifying = c.notifying)
    (hg : c'.guards = c.guards) : c'.Accounted :=
  ⟨by rw [hm, hg, h.marks], hg ▸ h.nested⟩

theorem Accounted.isNotifying_iff (h : c.Accounted) :
    c.isNotifying id ↔ { node := id } ∈ c.guards := by
  simp only [isNotifying, List.contains_iff_mem, h.marks, mem_markedBy]

theorem Accounted.refuseNotify (h : c.Accounted) (id : NodeId) : (c.refuseNotify id).Accounted where
  marks := by
    show c.notifying.filter (· != id) = markedBy (c.guards.map (NotifyGuard.overtake id))
    rw [markedBy_overtake, h.marks]
  nested := by
    refine List.pairwise_map.mpr (h.nested.imp fun {g outer} hg hn => ?_)
    simp [NotifyGuard.overtake, hg hn]

theorem Accounted.enterNotify (h : c.Accounted) (hm : ¬ c.isNotifying id) :
    (c.enterNotify id).Accounted where
  marks := by
    show id :: c.notifying = markedBy ({ node := id } :: c.guards)
    simp [markedBy, h.marks]
  nested := by
    refine List.pairwise_cons.mpr ⟨fun outer ho hn => ?_, h.nested⟩
    obtain ⟨node, overtaken⟩ := outer
    cases overtaken with
    | true => rfl
    | false =>
      obtain rfl : id = node := hn
      exact absurd (h.isNotifying_iff.mpr ho) hm

/-- The innermost guard takes its mark along, and no other guard has it. -/
theorem Accounted.leaveNotify (h : c.Accounted) {g : NotifyGuard} {rest : List NotifyGuard}
    (hg : c.guards = g :: rest) : (c.leaveNotify g.node).Accounted where
  marks := by
    show c.notifying.filter (· != g.node) = markedBy (c.guards.drop 1)
    have hn := (List.pairwise_cons.mp (hg ▸ h.nested)).1
    have none : ∀ id ∈ markedBy rest, id ≠ g.node := by
      rintro id hid rfl
      simpa using hn _ (mem_markedBy.mp hid) rfl
    have unmarked : (markedBy rest).filter (· != g.node) = markedBy rest :=
      List.filter_eq_self.mpr fun id hid => by simpa using none id hid
    rw [h.marks, hg, List.drop_one, List.tail_cons]
    obtain ⟨node, overtaken⟩ := g
    cases overtaken with
    | true => simpa [markedBy] using unmarked
    | false => simpa [markedBy] using unmarked
  nested := by
    show (c.guards.drop 1).Pairwise _
    rw [hg]
    exact (List.pairwise_cons.mp (hg ▸ h.nested)).2

end Context

/-- Marks are accounted for by guards, and guards stay in place. -/
def accounted (p : Action → Prop) : Discipline p where
  inv w := w.context.Accounted
  rel w w' := LaterGuards w.context.guards w'.context.guards
  refl w := .refl _
  trans h h' := h.trans h'
  change h hw := by
    rw [h.sameFrame.context]
    exact ⟨hw, .refl _⟩
  enter hb hw := by
    cases hb with
    | line isWorker => exact Context.accounted_of_nothing rfl rfl
    | _ => exact hw.congr rfl rfl
  leave {enter leave w w'} hb hw hw' hr := by
    cases hb with
    | scope s =>
      obtain ⟨scopes, corruption, h⟩ := w'.popScope_context s
      simp only [h]
      exact ⟨hw'.congr rfl rfl, hr⟩
    | line isWorker => exact ⟨hw, .refl _⟩
    | _ => exact ⟨hw'.congr rfl rfl, hr⟩
  clearCorruption hw := ⟨hw.congr rfl rfl, .refl _⟩
  popOutOfOrder {first second w} perform _ hw := by
    obtain ⟨scopes, corruption, h⟩ := popOutOfOrder_context first second perform w
    rw [h]
    exact ⟨hw.congr rfl rfl, .refl _⟩

theorem accounted_marks (p : Action → Prop) : (accounted p).Marks where
  refuse {w id} _ hw := ⟨hw.refuseNotify id, laterGuards_overtake id _⟩
  enter hm hw := hw.enterNotify hm
  leave {w w' id} _ _ hw' hr := by
    obtain ⟨g, rest, hg, hrest, he⟩ := List.forall₂_cons_left_iff.mp hr
    obtain rfl : g.node = id := hg.node
    refine ⟨hw'.leaveNotify he, ?_⟩
    show LaterGuards w.context.guards (w'.context.guards.drop 1)
    rw [he]
    exact hrest

/-- How it stands with the notification of a node on a line of execution. -/
inductive NotifyState where
  /-- None is under way. -/
  | idle
  /-- One is under way, and none was refused since. -/
  | guarded
  /-- One is under way, and one was refused since. -/
  | overtaken
deriving DecidableEq

/-- The innermost guard of a node tells. -/
def notifyStateOf (id : NodeId) : List NotifyGuard → NotifyState
  | [] => .idle
  | g :: rest =>
    if g.node = id then if g.overtaken then .overtaken else .guarded else notifyStateOf id rest

def Context.notifyState (c : Context) (id : NodeId) : NotifyState := notifyStateOf id c.guards

theorem mem_of_notifyStateOf_eq_guarded {id : NodeId} {guards : List NotifyGuard}
    (h : notifyStateOf id guards = .guarded) : { node := id } ∈ guards := by
  induction guards with
  | nil => cases h
  | cons g rest ih =>
    by_cases hn : g.node = id
    · obtain ⟨node, overtaken⟩ := g
      obtain rfl : node = id := hn
      cases overtaken with
      | true => simp [notifyStateOf] at h
      | false => exact List.mem_cons_self
    · rw [notifyStateOf, if_neg hn] at h
      exact List.mem_cons_of_mem _ (ih h)

theorem notifyStateOf_eq_guarded {id : NodeId} {guards : List NotifyGuard}
    (nested : guards.Pairwise fun g outer => g.node = outer.node → outer.overtaken)
    (h : { node := id } ∈ guards) : notifyStateOf id guards = .guarded := by
  induction guards with
  | nil => cases h
  | cons g rest ih =>
    obtain ⟨hg, hr⟩ := List.pairwise_cons.mp nested
    rcases List.mem_cons.mp h with rfl | hm
    · simp [notifyStateOf]
    · by_cases hn : g.node = id
      · cases hg _ hm hn
      · rw [notifyStateOf, if_neg hn]
        exact ih hr hm

theorem Context.Accounted.mem_guards_iff {c : Context} (h : c.Accounted) {id : NodeId} :
    { node := id } ∈ c.guards ↔ c.notifyState id = .guarded :=
  ⟨notifyStateOf_eq_guarded h.nested, mem_of_notifyStateOf_eq_guarded⟩

theorem notifyStateOf_overtake {id : NodeId} {guards : List NotifyGuard}
    (h : notifyStateOf id guards = .guarded) :
    notifyStateOf id (guards.map (NotifyGuard.overtake id)) = .overtaken := by
  induction guards with
  | nil => cases h
  | cons g rest ih =>
    by_cases hn : g.node = id
    · simp [notifyStateOf, NotifyGuard.overtake, hn]
    · rw [notifyStateOf, if_neg hn] at h
      have hn' : (g.overtake id).node ≠ id := hn
      rw [List.map_cons, notifyStateOf, if_neg hn']
      exact ih h

/-- A notification that is not under way, or that is overtaken, stays so as long as the guards are
in place. -/
theorem LaterGuards.notifyStateOf_eq {id : NodeId} {guards guards' : List NotifyGuard}
    (h : LaterGuards guards guards') (hs : notifyStateOf id guards ≠ .guarded) :
    notifyStateOf id guards' = notifyStateOf id guards := by
  induction h with
  | nil => rfl
  | @cons g g' rest rest' hg _ ih =>
    by_cases hn : g.node = id
    · have ho : g.overtaken := by
        cases ho : g.overtaken with
        | true => rfl
        | false => simp [notifyStateOf, hn, ho] at hs
      simp [notifyStateOf, hn, hg.node, ho, hg.overtaken ho]
    · rw [notifyStateOf, if_neg hn] at hs
      rw [notifyStateOf, notifyStateOf, hg.node, if_neg hn, if_neg hn, ih hs]

/-- Wherever a notification of a node comes up, the node is marked if and only if one is under way
that was not overtaken. Then the call is skipped, and overtakes it. In any other case the node is
executed and its listeners are called, also if a notification of the node is under way; and how it
stands with that one is the same afterwards. -/
theorem notify_skipped_iff_not_overtaken {α : Type} {x : Eval α}
    (hx : Routine (fun _ => True) x) {fuel left : Nat} {w w' : World} {id : NodeId}
    (hw : w.context.Accounted) (h : Reached x fuel w (left + 1) (.notify id) w') :
    (id ∈ w'.context.notifying ↔ w'.context.notifyState id = .guarded) ∧
    (w'.context.notifyState id = .guarded →
      performWith (left + 1) (.notify id) w' = (.ok .void, w'.refuseNotify id) ∧
      (w'.refuseNotify id).context.notifyState id = .overtaken) ∧
    (w'.context.notifyState id ≠ .guarded →
      let (result, after) := (announce id).run left (w'.enterNotify id)
      performWith (left + 1) (.notify id) w' = (result, after.leaveNotify id) ∧
      (after.leaveNotify id).context.notifyState id = w'.context.notifyState id) := by
  have everything (w : World) : w.Allowed fun _ => True := w.allowed_of_forall fun _ => trivial
  obtain ⟨-, good⟩ := (accounted_marks fun _ => True).good_of_reached hx ⟨everything w, hw⟩ h
  have acc : w'.context.Accounted := good.inv
  have marked : w'.context.isNotifying id ↔ w'.context.notifyState id = .guarded :=
    acc.isNotifying_iff.trans acc.mem_guards_iff
  refine ⟨?_, fun hs => ⟨?_, notifyStateOf_overtake hs⟩, fun hs => ⟨?_, ?_⟩⟩
  · rw [← marked, Context.isNotifying, List.contains_iff_mem]
  · exact whileNotifying_of_marked (marked.mpr hs) _
  · exact whileNotifying_of_not_marked (mt marked.mp hs) _
  · have kept := (keeps_notify (accounted_marks fun _ => True)
      (fun _ ht => (accounted_marks fun _ => True).keeps_performWith left ht) id w' good).2
    have kept : LaterGuards w'.context.guards
        (whileNotifying id (announce id) (performWith left) w').2.context.guards := kept
    rw [whileNotifying_of_not_marked (mt marked.mp hs)] at kept
    exact kept.notifyStateOf_eq hs

/-- A listener that does nothing but notify the first node. -/
def selfNotifying (label : String) : Callback :=
  .program [.input, .record .delivery label, .notify 1]

/-- A node with two such listeners, which fails if it is executed a second time. -/
def relapsing : Node where
  operation := "relapse"
  source := Segment.unknown
  inputs := []
  body := .program [.sequence [.int 1, .error (EvalError.exception "executed again")],
    .raiseResult]
  flags := {}
  captured := none
  trigger := .inputs
  listeners := { entries := [("a", selfNotifying "a"), ("b", selfNotifying "b")], next := 2 }

def relapsingWorld : World := { nodes := #[relapsing] }

/-- A listener is called while it and those after it are held. -/
def calling (callbacks : List Callback) (w : World) : World :=
  { w with inUse := (Value.int 1).held ++ heldByCallbacks callbacks ++ w.inUse }

def executedOnce : World :=
  (performWith 3 (.resolve 1 1 false) (relapsingWorld.enterNotify 1)).2

/-- The first listener was called; it has notified the node in vain. -/
def refusedOnce : World :=
  { (performWith 3 (.deliver (selfNotifying "a") (.int 1))
      (calling [selfNotifying "a", selfNotifying "b"] executedOnce)).2 with
    inUse := executedOnce.inUse }

/-- The second listener is about to notify the node. -/
def notifiedAgain : World :=
  (calling [selfNotifying "b"] refusedOnce).note (.recorded .delivery "b" (.int 1))

theorem listeners_executedOnce :
    executedOnce.listenersOf 1 = [selfNotifying "a", selfNotifying "b"] := by rfl

theorem notify_stopsAt_second : (notify 1).StopsAt (performWith 3) relapsingWorld
    (.deliver (selfNotifying "b") (.int 1)) (calling [selfNotifying "b"] refusedOnce) := by
  have executed : performWith 3 (.resolve 1 1 false) (relapsingWorld.enterNotify 1) =
      (.ok (.int 1), executedOnce) := rfl
  have other : ¬ (Task.deliver (selfNotifying "a") (.int 1) =
        .deliver (selfNotifying "b") (.int 1) ∧
      calling [selfNotifying "a", selfNotifying "b"] executedOnce =
        calling [selfNotifying "b"] refusedOnce) := by
    simp [selfNotifying]
  refine StopsAt.whileNotifying (by decide) (EndsBefore.bind (fun _ _ => rfl) ?_)
  refine EndsBefore.bind (endsBefore_perform (by simp) executed)
    (EndsBefore.bind (fun _ _ => rfl) ?_)
  rw [listeners_executedOnce]
  refine StopsAt.bind (EndsBefore.bind (EndsBefore.holding _ (endsBefore_perform other rfl)) ?_) _
  exact StopsAt.bind (StopsAt.holding _ (stopsAt_perform _ _)) _

theorem notifiedAgain_reached :
    Reached (perform (.notify 1)) 4 relapsingWorld 2 (.notify 1) notifiedAgain := by
  have first : (perform (.notify 1)).StopsAt (performWith 4) relapsingWorld (.notify 1)
      relapsingWorld := stopsAt_perform _ _
  have stops : (deliver (selfNotifying "b") (.int 1)).StopsAt (performWith 2)
      (calling [selfNotifying "b"] refusedOnce) (.notify 1) notifiedAgain := by
    refine EndsBefore.bind (fun _ _ => rfl) (EndsBefore.bind (fun _ _ => rfl) ?_)
    exact StopsAt.bind (stopsAt_perform _ _) _
  refine .nested (.nested (.asked (first.dependsOn ?_)) (notify_stopsAt_second.dependsOn ?_))
    (stops.dependsOn ?_)
  all_goals decide +kernel

/-- The notification by the second listener is carried out although the first one is under way. -/
theorem second_listener_carried_out :
    Reached (perform (.notify 1)) 4 relapsingWorld 2 (.notify 1) notifiedAgain ∧
    notifiedAgain.context.notifyState 1 = .overtaken ∧
    let (result, after) := (announce 1).run 1 (notifiedAgain.enterNotify 1)
    performWith 2 (.notify 1) notifiedAgain = (result, after.leaveNotify 1) ∧
    (after.leaveNotify 1).context.notifyState 1 = .overtaken := by
  have fresh : relapsingWorld.context.Accounted := Context.accounted_of_nothing rfl rfl
  have state : notifiedAgain.context.notifyState 1 = .overtaken := by decide +kernel
  have routine : Routine (fun _ => True) (perform (.notify 1)) := .perform True.intro
  obtain ⟨-, -, carriedOut⟩ :=
    notify_skipped_iff_not_overtaken routine fresh notifiedAgain_reached
  obtain ⟨run, after⟩ := carriedOut (by simp [state])
  exact ⟨notifiedAgain_reached, state, run, after.trans state⟩

/-- A notification of a node comes up while one of the same node is under way, the node is not
marked, and the notification is not skipped: the node is executed again. -/
theorem relapsing_executed_again :
    Reached (perform (.notify 1)) 4 relapsingWorld 2 (.notify 1) notifiedAgain ∧
    notifiedAgain.context.notifyState 1 ≠ .idle ∧ 1 ∉ notifiedAgain.context.notifying ∧
    (performWith 2 (.notify 1) notifiedAgain).1 = .error (.raised
      ((EvalError.exception "executed again").withSource Segment.unknown)) :=
  ⟨notifiedAgain_reached, by decide +kernel, by decide +kernel, rfl⟩

end ReactiveScript
