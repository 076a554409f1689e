import ReactiveScript.Proofs.FailedAssignments
import ReactiveScript.Proofs.Registry

/-!
# Subscriptions

A subscription that was kept is either live, which means that the table has it under exactly one
slot and it is not cancelled, or it is over, which means that it is cancelled and not in the table;
and over it stays. This holds at every entry of a ledger, and so at every moment at which other code
runs, however subscribing, replacing, cancelling and delivering are nested. A subscription that is
over is not delivered to any more, an assignment to a slot leaves one live subscription in it, and a
shutdown that returns leaves none at all.
-/

namespace ReactiveScript

open Eval

section inert

/-- However the evaluation ends, the registries are as they were. -/
def Eval.Inert {α : Type} (fuel : Nat) (x : Eval α) : Prop :=
  ∀ w : World, w.SameRegistries (x.run fuel w).2

namespace Eval.Inert

variable {α β : Type} {fuel : Nat} {x : Eval α}

theorem pure (a : α) : (Pure.pure a : Eval α).Inert fuel := fun w => .refl w

theorem bind {f : α → Eval β} (hx : x.Inert fuel) (hf : ∀ a, (f a).Inert fuel) :
    (x >>= f).Inert fuel := by
  intro w
  have first := hx w
  rcases hr : x.run fuel w with ⟨i | a, u⟩
  · have run : (x >>= f).run fuel w = (.error i, u) := bind_of_error hr
    rw [run]
    rwa [hr] at first
  · have run : (x >>= f).run fuel w = (f a).run fuel u := bind_of_ok hr
    rw [run]
    rw [hr] at first
    exact first.trans (hf a u)

theorem look {f : World → Eval α} (hf : ∀ w, (f w).Inert fuel) : (world >>= f).Inert fuel :=
  bind (fun w => .refl w) hf

theorem modify {f : World → World} (hf : ∀ w, (f w).registries = w.registries) :
    (Eval.modify f).Inert fuel := fun w => .of_eq (hf w)

theorem unlessError {first second : Eval Value} (h : first.Inert fuel) (h' : second.Inert fuel) :
    (Eval.unlessError first second).Inert fuel := by
  refine .bind h fun v => ?_
  split
  · exact .pure v
  · exact h'

theorem answerRequest (id : ResourceId) (request : Request) :
    (Eval.answerRequest id request).Inert fuel := by
  intro w
  refine .of_eq ?_
  show World.registries (Eval.modifyGet _ _ w).2 = _
  simp only [Eval.modifyGet]
  split <;> rfl

end Eval.Inert

namespace Eval.Inert

variable {fuel : Nat}
  (asked : ∀ id s, (Eval.perform (.signal id s)).Inert fuel)
include asked

theorem callRecording (id : ResourceId) (name : String) (b : RecordingBackend) (request : Request) :
    (Eval.callRecording id name b request).Inert fuel := by
  unfold Eval.callRecording
  split
  · exact .pure _
  · refine .bind (.modify fun _ => rfl) fun _ => ?_
    rcases b.reentries.lookup request.hook with _ | s
    on_goal 2 => refine .bind (asked id s) fun _ => .bind (.modify fun _ => rfl) fun _ => ?_
    all_goals
      split
      · exact .pure _
      · exact answerRequest id request

theorem callBackend (id : ResourceId) (request : Request) :
    (Eval.callBackend id request).Inert fuel := by
  refine .look fun w => ?_
  split
  · exact callRecording asked id _ _ request
  · exact answerRequest id request

theorem signalAction (id : ResourceId) (state : LifecycleState) (s : Signal) :
    (Eval.signalAction id state s).Inert fuel := by
  have call := callBackend asked id
  cases s with
  | start =>
    simp only [Eval.signalAction]
    split
    · exact unlessError (call .init) (call .start)
    · exact call .start
  | stop => exact call .stop
  | pause => exact call .pause
  | unpause => exact call .unpause
  | destroy =>
    simp only [Eval.signalAction]
    split
    · exact unlessError (call .stop) (call .destroy)
    · exact call .destroy
  | error => exact .pure _

theorem signal_of_asked (id : ResourceId) (s : Signal) : (Eval.signal id s).Inert fuel := by
  refine .look fun w => ?_
  split
  · exact .pure _
  · split
    · exact .pure _
    · exact .bind (signalAction asked id _ s) fun _ => .bind (.modify fun _ => rfl) fun _ => .pure _

end Eval.Inert

namespace Eval.Inert

variable {fuel : Nat}

/-- A signal may make a backend signal again, so the induction is on the fuel. -/
theorem perform_signal (fuel : Nat) (id : ResourceId) (s : Signal) :
    (Eval.perform (.signal id s)).Inert fuel := by
  induction fuel generalizing id s with
  | zero => exact fun w => .refl w
  | succ fuel ih => exact signal_of_asked ih id s

theorem disconnect (id : SubscriptionId) (target : Option SubscriptionTarget) :
    (Eval.disconnect id target).Inert fuel := by
  cases target with
  | none => exact .pure ()
  | some target =>
    cases target with
    | resource r => exact .bind (callBackend (perform_signal fuel) r _) fun _ => .pure ()
    | node n => exact .modify fun _ => rfl
    | value => exact .pure ()

theorem disconnectPrevious (w : World) (previous : Option SubscriptionId) :
    (Eval.disconnectPrevious w previous).Inert fuel := by
  cases previous with
  | none => exact .pure ()
  | some id => exact disconnect id _

theorem stopResource (id : ResourceId) : (Eval.stopResource id).Inert fuel := by
  refine .look fun w => ?_
  split
  · exact .pure ()
  · split
    · refine .bind (signal_of_asked (perform_signal fuel) id .stop) fun stopped => ?_
      split
      · exact fun w => .report w _ _ _
      · exact .pure ()
    · exact .pure ()

theorem stopResources (ids : List ResourceId) : (Eval.stopResources ids).Inert fuel := by
  induction ids with
  | nil => exact .pure ()
  | cons id rest ih => exact .bind (stopResource id) fun _ => ih

end Eval.Inert

end inert

section shutdown

variable {fuel : Nat} {w w' : World}

end shutdown

namespace Record

variable {s s' : Affairs} {entries : List Entry} {slot : Slot} {id : SubscriptionId}

theorem inOrder (h : Record s entries s') (ordered : s.InOrder) :
    (∀ e ∈ entries, e.before.InOrder ∧ e.after.InOrder) ∧ s'.InOrder :=
  h.keeps (I := Affairs.InOrder) ordered
    (fun hs ordered => ordered.of_registries hs.subscriptions hs.table)
    fun _ _ legal ordered => legal.inOrder ordered

/-- An invariant of registries that are in order. -/
theorem keeps_ordered {I : World → Prop} (h : Record s entries s') (ordered : s.InOrder)
    (start : I s.world)
    (same : ∀ {w w' : World}, w'.subscriptions = w.subscriptions → w'.table = w.table → I w → I w')
    (entry : ∀ e : Entry, e.Legal → e.before.InOrder → I e.before.world → I e.after.world) :
    (∀ e ∈ entries, I e.before.world ∧ I e.after.world) ∧ I s'.world := by
  let J (t : Affairs) : Prop := t.InOrder ∧ I t.world
  have kept : (∀ e ∈ entries, J e.before ∧ J e.after) ∧ J s' := by
    refine h.keeps (I := J) ⟨ordered, start⟩ (fun hs ⟨ordered, hi⟩ => ?_) fun e _ legal ⟨ordered, hi⟩ => ?_
    · exact ⟨ordered.of_registries hs.subscriptions hs.table, same hs.subscriptions hs.table hi⟩
    · exact ⟨legal.inOrder ordered, entry e legal ordered hi⟩
  exact ⟨fun e he => ⟨(kept.1 e he).1.2, (kept.1 e he).2.2⟩, kept.2.2⟩

end Record

section settled

variable {w w' : World} {slot : Slot} {id : SubscriptionId}

theorem World.isCancelled_congr (h : w'.subscriptions = w.subscriptions) :
    w'.isCancelled id = w.isCancelled id := by
  simp only [isCancelled, subscription?, h]

/-- The subscription is live in the slot, or over. -/
def World.Settled (w : World) (slot : Slot) (id : SubscriptionId) : Prop := w.Live slot id ∨ w.Over id

theorem World.Settled.congr (hs : w'.subscriptions = w.subscriptions) (ht : w'.table = w.table)
    (h : w.Settled slot id) : w'.Settled slot id := by
  unfold Settled Live Over at *
  rwa [ht, isCancelled_congr hs]

/-- What is live or over at the start of a record is so at every entry and at the end. -/
theorem Record.settled {s s' : Affairs} {entries : List Entry} (h : Record s entries s')
    (ordered : s.InOrder) (start : s.world.Settled slot id) :
    (∀ e ∈ entries, e.before.world.Settled slot id ∧ e.after.world.Settled slot id) ∧
      s'.world.Settled slot id := by
  refine h.keeps_ordered (I := fun w => w.Settled slot id) ordered start World.Settled.congr ?_
  rintro e legal ordered (live | ended)
  · exact (legal.mem_or_over ordered live.mem).imp_left (legal.inOrder ordered).live_iff.mpr
  · exact .inr (legal.stays_over ordered ended)

theorem Record.isCancelled {s s' : Affairs} {entries : List Entry} (h : Record s entries s')
    (ordered : s.InOrder) (start : s.world.isCancelled id) :
    (∀ e ∈ entries, e.before.world.isCancelled id ∧ e.after.world.isCancelled id) ∧
      s'.world.isCancelled id :=
  h.keeps_ordered (I := fun w => w.isCancelled id) ordered start
    (fun hs _ ended => (World.isCancelled_congr hs).trans ended)
    fun _ legal ordered ended => legal.isCancelled ordered ended

theorem Entry.Legal.size_le {e : Entry} (h : e.Legal) :
    e.before.world.subscriptions.size ≤ e.after.world.subscriptions.size := by
  have ended (w : World) (previous : Option SubscriptionId) :
      (w.endPrevious previous).subscriptions.size = w.subscriptions.size := by
    cases previous with
    | none => rfl
    | some id =>
      show (w.endSubscription id).subscriptions.size = _
      unfold World.endSubscription
      split
      · exact Array.size_modify
      · rfl
  cases h with
  | began w pending => exact Nat.le_of_lt (by simp [Entry.began, World.beginSubscription])
  | kept w pending slot id target =>
    refine Nat.le_of_eq (.symm ((ended _ _).trans ?_))
    exact Array.size_modify
  | @ended w pending slot id hl => exact Nat.le_of_eq (ended (w.withoutSlot slot) _).symm
  | _ => exact Nat.le_refl _

theorem Record.size_le {s s' : Affairs} {entries : List Entry} (h : Record s entries s') :
    s.world.subscriptions.size ≤ s'.world.subscriptions.size := by
  let I (t : Affairs) : Prop := s.world.subscriptions.size ≤ t.world.subscriptions.size
  refine (h.keeps (I := I) (Nat.le_refl _) (fun hs hi => ?_) fun e _ legal hi => ?_).2
  · show s.world.subscriptions.size ≤ _
    rw [hs.subscriptions]
    exact hi
  · exact Nat.le_trans hi legal.size_le

end settled

section establish

variable {α : Type} {x : Eval α} {fuel : Nat} {pending : List SubscriptionId} {w w' : World}
  {slotOf : SubscriptionId → Slot} {source : Value} {callback : Callback} {id : SubscriptionId}

theorem Eval.Protocol.connecting (source : Value) (callback : Callback) (id : SubscriptionId) :
    Protocol (fun _ => True) (Eval.connecting source callback id) :=
  .holding _ (.connect _ _ _ ((Callback.guarded id callback).allowed_of_forall fun _ => trivial))

end establish

section assignments

variable {fuel : Nat} {pending : List SubscriptionId} {w w' : World} {c : Commit} {rhs v : Value}

theorem Eval.Protocol.declareVoid (c : Commit) (scope : ScopeId) :
    Protocol (fun _ => True) (Eval.declareVoid c scope) := by
  refine .look fun w _ => ?_
  split
  · exact .pure ()
  · exact .bind (.commit c .void) fun _ => .pure ()

end assignments

theorem Eval.deliver_of_cancelled {w : World} {id : SubscriptionId} (h : w.isCancelled id)
    (callback : Callback) (v : Value) (perform : Task → Run Value) :
    deliver (.guarded id callback) v perform w = (.ok .void, w) := by
  rw [deliver, world_bind, if_pos h]
  rfl

namespace Record

variable {w : World} {pending : List SubscriptionId} {e : Entry} {later : List Entry}
  {s' : Affairs} {id : SubscriptionId}

/-- A subscription that is being made is kept or fails before it ceases to be pending. -/
theorem concluded {s : Affairs} {entries : List Entry} (h : Record s entries s')
    (hid : id ∈ s.pending) (gone : id ∉ s'.pending) :
    ∃ e ∈ entries, e.occurrence = .failed id ∨ ∃ slot, e.occurrence = .kept slot id := by
  refine Classical.byContradiction fun none => gone ?_
  refine (h.keeps (I := fun t => id ∈ t.pending) hid (fun _ hid => hid) fun e he legal hid => ?_).2
  have other : ¬ (e.occurrence = .failed id ∨ ∃ slot, e.occurrence = .kept slot id) :=
    fun ho => none ⟨e, he, ho⟩
  cases legal with
  | began w pending => exact List.mem_cons_of_mem _ hid
  | failed w pending id' =>
    exact (List.mem_cons.mp hid).resolve_left fun he => other (.inl (he ▸ rfl))
  | kept w pending slot id' target =>
    exact (List.mem_cons.mp hid).resolve_left fun he => other (.inr ⟨slot, he ▸ rfl⟩)
  | _ => exact hid

end Record

theorem Affairs.InOrder.fresh {w : World} {pending : List SubscriptionId}
    (h : Affairs.InOrder ⟨w, pending⟩) : w.nextSubscription ∉ pending := fun hm =>
  Nat.not_succ_le_self _ (World.le_size_of_followed? (h.pending _ hm).1)

end ReactiveScript
