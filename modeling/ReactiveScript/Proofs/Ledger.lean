import ReactiveScript.Proofs.Discipline

/-!
# Ledgers

What an evaluation does to the callbacks on variables and to the subscriptions is a sequence of
entries. A subscription is entered when it is begun and again when it is kept or has failed; between
the two, while its source is being connected, it is pending, and further subscriptions may come and
go. Besides, a ledger has an entry for every task that is asked for, which is where other code runs,
and for every value that is written, after which the listeners are called. Every protocol has a
ledger, and a ledger is a record that leads from the world in which the evaluation starts to the one
in which it ends.
-/

namespace ReactiveScript

open Eval

/-- What is entered in a ledger. -/
inductive Occurrence where
  | asked (t : Task)
  | written (a : BindAttempt)
  | listened (scope : ScopeId) (name key : String) (callback : Callback)
  | unlistened (scope : ScopeId) (name key : String)
  | began (id : SubscriptionId)
  | failed (id : SubscriptionId)
  | kept (slot : Slot) (id : SubscriptionId)
  /-- The subscription was taken out of its slot and cancelled. -/
  | ended (slot : Slot) (id : SubscriptionId)

/-- A world with the subscriptions that are being made in it, the innermost first. -/
structure Affairs where
  world : World
  pending : List SubscriptionId

structure Entry where
  before : Affairs
  occurrence : Occurrence
  after : Affairs

namespace World

/-- The number that the next subscription takes. -/
def nextSubscription (w : World) : SubscriptionId := w.subscriptions.size + 1

/-- A callback is registered in the scope that has the variable. -/
def listened (w : World) (scope : ScopeId) (name key : String) (callback : Callback) : World :=
  w.modifyScope (w.scopes.targetOf scope name) fun s => s.listen name key callback

def unlistened (w : World) (scope : ScopeId) (name key : String) : World :=
  w.modifyScope (w.scopes.targetOf scope name) fun s => s.unlisten name key

end World

namespace Entry

section entries

variable (w : World) (pending : List SubscriptionId)

def asked (t : Task) : Entry := ⟨⟨w, pending⟩, .asked t, ⟨w, pending⟩⟩

def written (a : BindAttempt) : Entry := ⟨⟨w, pending⟩, .written a, ⟨a.write w, pending⟩⟩

def listened (scope : ScopeId) (name key : String) (callback : Callback) : Entry :=
  ⟨⟨w, pending⟩, .listened scope name key callback, ⟨w.listened scope name key callback, pending⟩⟩

def unlistened (scope : ScopeId) (name key : String) : Entry :=
  ⟨⟨w, pending⟩, .unlistened scope name key, ⟨w.unlistened scope name key, pending⟩⟩

def began : Entry :=
  ⟨⟨w, pending⟩, .began w.nextSubscription, ⟨w.beginSubscription, w.nextSubscription :: pending⟩⟩

def failed (id : SubscriptionId) : Entry := ⟨⟨w, id :: pending⟩, .failed id, ⟨w, pending⟩⟩

def kept (slot : Slot) (id : SubscriptionId) (target : SubscriptionTarget) : Entry :=
  ⟨⟨w, id :: pending⟩, .kept slot id, ⟨w.keepSlot slot id target, pending⟩⟩

def ended (slot : Slot) (id : SubscriptionId) : Entry :=
  ⟨⟨w, pending⟩, .ended slot id, ⟨w.endSlot slot, pending⟩⟩

end entries

/-- The entries that there are. -/
inductive Legal : Entry → Prop where
  | asked (w pending t) : Legal (asked w pending t)
  | written (w pending a) : Legal (written w pending a)
  | listened (w pending scope name key callback) :
      Legal (listened w pending scope name key callback)
  | unlistened (w pending scope name key) : Legal (unlistened w pending scope name key)
  | began (w pending) : Legal (began w pending)
  | failed (w pending id) : Legal (failed w pending id)
  | kept (w pending slot id target) : Legal (kept w pending slot id target)
  | ended (w pending) {slot id} (h : w.table.lookup slot = some id) : Legal (ended w pending slot id)

end Entry

/-- A sequence of entries, between which the registries stay as they are. -/
inductive Record : Affairs → List Entry → Affairs → Prop where
  | done (s : Affairs) : Record s [] s
  | still {w w' : World} {pending : List SubscriptionId} {entries : List Entry} {s : Affairs}
      (h : w.SameRegistries w') (rest : Record ⟨w', pending⟩ entries s) :
      Record ⟨w, pending⟩ entries s
  | entry {e : Entry} {entries : List Entry} {s : Affairs} (h : e.Legal)
      (rest : Record e.after entries s) : Record e.before (e :: entries) s

namespace Record

variable {s s' s'' : Affairs} {entries entries' : List Entry} {e : Entry}

theorem append (h : Record s entries s') (h' : Record s' entries' s'') :
    Record s (entries ++ entries') s'' := by
  induction h with
  | done => exact h'
  | still hs _ ih => exact .still hs (ih h')
  | entry he _ ih => exact .entry he (ih h')

theorem still_after {w w' : World} {pending : List SubscriptionId}
    (h : Record s entries ⟨w, pending⟩) (hs : w.SameRegistries w') :
    Record s entries ⟨w', pending⟩ := by
  simpa using h.append (.still hs (.done _))

theorem single (h : e.Legal) : Record e.before [e] e.after := .entry h (.done _)

theorem split {earlier later : List Entry} (h : Record s (earlier ++ e :: later) s') :
    Record s earlier e.before ∧ e.Legal ∧ Record e.after later s' := by
  generalize he : earlier ++ e :: later = entries at h
  induction h generalizing earlier with
  | done => cases earlier <;> cases he
  | still hs _ ih =>
    obtain ⟨before, legal, after⟩ := ih he
    exact ⟨.still hs before, legal, after⟩
  | @entry e' entries s legal rest ih =>
    cases earlier with
    | nil =>
      cases he
      exact ⟨.done _, legal, rest⟩
    | cons _ earlier =>
      cases he
      obtain ⟨before, legal', after⟩ := ih rfl
      exact ⟨.entry legal before, legal', after⟩

/-- What holds at the start of a record and is respected by its entries holds before and after each
entry and at the end, if it only depends on the registries. -/
theorem keeps {I : Affairs → Prop} (h : Record s entries s') (start : I s)
    (still : ∀ {w w' pending}, w.SameRegistries w' → I ⟨w, pending⟩ → I ⟨w', pending⟩)
    (entry : ∀ e ∈ entries, e.Legal → I e.before → I e.after) :
    (∀ e ∈ entries, I e.before ∧ I e.after) ∧ I s' := by
  induction h with
  | done => exact ⟨List.forall_mem_nil _, start⟩
  | still hs _ ih => exact ih (still hs start) entry
  | @entry e entries _ he _ ih =>
    have after := entry e List.mem_cons_self he start
    obtain ⟨each, last⟩ := ih after fun e' he' => entry e' (List.mem_cons_of_mem e he')
    exact ⟨List.forall_mem_cons.mpr ⟨⟨start, after⟩, each⟩, last⟩

end Record

/-- The making of a subscription, up to keeping it. -/
def Eval.connecting (source : Value) (callback : Callback) (id : SubscriptionId) :
    Eval SubscriptionTarget :=
  holding (source.held ++ callback.held)
    (connect source (subscriptionName id) (.guarded id callback))

/-- The entries of an evaluation that starts in a world while other subscriptions are pending. -/
inductive Ledger :
    Nat → List SubscriptionId → {α : Type} → Eval α → World → List Entry → Prop where
  /-- However tasks are carried out, the evaluation leaves the registries as they are. -/
  | still {fuel pending w} {α : Type} {x : Eval α}
      (h : ∀ perform, w.SameRegistries (x perform w).2) : Ledger fuel pending x w []
  | bind_ok {fuel pending w w' entries entries'} {α β : Type} {x : Eval α} {f : α → Eval β} {a : α}
      (hx : Ledger fuel pending x w entries) (result : x.run fuel w = (.ok a, w'))
      (hf : Ledger fuel pending (f a) w' entries') :
      Ledger fuel pending (x >>= f) w (entries ++ entries')
  | bind_error {fuel pending w w' entries} {α β : Type} {x : Eval α} {f : α → Eval β}
      {i : Interrupt} (hx : Ledger fuel pending x w entries)
      (result : x.run fuel w = (.error i, w')) : Ledger fuel pending (x >>= f) w entries
  | exhausted {pending w} (t : Task) : Ledger 0 pending (perform t) w [.asked w pending t]
  | perform {fuel pending w entries} {t : Task} (h : Ledger fuel pending (step t) w entries) :
      Ledger (fuel + 1) pending (perform t) w (.asked w pending t :: entries)
  | attempt {fuel pending w entries} {α : Type} {x : Eval α} (h : Ledger fuel pending x w entries) :
      Ledger fuel pending (attempt x) w entries
  | bracket {fuel pending w entries} {α : Type} {enter : World → World}
      {leave : World → World → World} {x : Eval α} (entered : w.SameRegistries (enter w))
      (left : ∀ w' : World, w'.SameRegistries (leave w w'))
      (h : Ledger fuel pending x (enter w) entries) :
      Ledger fuel pending (bracket enter leave x) w entries
  /-- The value is not bound. -/
  | refused {fuel pending w scope name value options a checking}
      (made : w.attempt scope name value options = a) (free : ¬ a.Barred w)
      (check : Ledger fuel pending a.check w checking)
      (stopped : ∀ u, a.check.run fuel w = (.ok (), u) → a.Barred u) :
      Ledger fuel pending (Eval.bind scope name value options) w checking
  | written {fuel pending w u scope name value options a checking announcing}
      (made : w.attempt scope name value options = a) (free : ¬ a.Barred w)
      (check : Ledger fuel pending a.check w checking)
      (checked : a.check.run fuel w = (.ok (), u)) (unbarred : ¬ a.Barred u)
      (announce : Ledger fuel pending a.announce (a.write u) announcing) :
      Ledger fuel pending (Eval.bind scope name value options) w
        (checking ++ .written u pending a :: announcing)
  | listened {fuel pending w} (scope : ScopeId) (name key : String) (callback : Callback) :
      Ledger fuel pending (listenVariable scope name key callback) w
        [.listened w pending scope name key callback]
  | unlistened {fuel pending w} (scope : ScopeId) (name key : String) :
      Ledger fuel pending (unlistenVariable scope name key) w
        [.unlistened w pending scope name key]
  | failed {fuel pending w u slotOf source callback i entries}
      (h : Ledger fuel (w.nextSubscription :: pending)
        (connecting source callback w.nextSubscription) w.beginSubscription entries)
      (result : (connecting source callback w.nextSubscription).run fuel w.beginSubscription =
        (.error i, u)) :
      Ledger fuel pending (establish slotOf source callback) w
        (.began w pending :: entries ++ [.failed u pending w.nextSubscription])
  | kept {fuel pending w u slotOf source callback target entries leaving}
      (h : Ledger fuel (w.nextSubscription :: pending)
        (connecting source callback w.nextSubscription) w.beginSubscription entries)
      (result : (connecting source callback w.nextSubscription).run fuel w.beginSubscription =
        (.ok target, u))
      (left : Ledger fuel pending
        (disconnectPrevious (u.fillSlot (slotOf w.nextSubscription) w.nextSubscription target)
          (u.table.lookup (slotOf w.nextSubscription)))
        (u.keepSlot (slotOf w.nextSubscription) w.nextSubscription target) leaving) :
      Ledger fuel pending (establish slotOf source callback) w
        (.began w pending :: entries ++
          .kept u pending (slotOf w.nextSubscription) w.nextSubscription target :: leaving)
  | vacant {fuel pending w slot} (h : w.table.lookup slot = none) :
      Ledger fuel pending (endSlot slot) w []
  | ended {fuel pending w slot id leaving} (h : w.table.lookup slot = some id)
      (left : Ledger fuel pending (disconnectPrevious (w.withoutSlot slot) (some id))
        (w.endSlot slot) leaving) :
      Ledger fuel pending (endSlot slot) w (.ended w pending slot id :: leaving)

section runs

variable {α : Type} {perform : Task → Run Value} {w u : World}

theorem World.withoutSlot_of_lookup {slot : Slot} (h : w.table.lookup slot = none) :
    w.withoutSlot slot = w := by
  have same : w.table.filter (fun e => e.1 ≠ slot) = w.table := by
    refine List.filter_eq_self.mpr fun e he => ?_
    exact decide_eq_true (Ne.symm (bne_iff_ne.mp (List.lookup_eq_none_iff.mp h e he)))
  simp only [withoutSlot, same]

/-- Ending a slot changes the table at once and disconnects what the slot held afterwards. -/
theorem Eval.endSlot_apply (slot : Slot) (perform : Task → Run Value) (w : World) :
    endSlot slot perform w =
      (disconnectPrevious (w.withoutSlot slot) (w.table.lookup slot) >>= fun _ =>
        pure (w.table.lookup slot)) perform (w.endSlot slot) := by
  have h : endSlot slot = (do
      let previous ← takeSlot slot
      let w ← Eval.world
      modify fun w => w.endPrevious previous
      disconnectPrevious w previous
      return previous) := by
    simp only [endSlot, cancelPrevious_eq, bind_assoc]
  rw [h]
  rfl

theorem Eval.establish_of_failed {slotOf : SubscriptionId → Slot} {source : Value}
    {callback : Callback} {i : Interrupt}
    (h : connecting source callback w.nextSubscription perform w.beginSubscription =
      (.error i, u)) : establish slotOf source callback perform w = (.error i, u) := by
  have began : newSubscription perform w = (.ok w.nextSubscription, w.beginSubscription) := rfl
  have failed : subscribe source callback perform w = (.error i, u) :=
    (bind_of_ok began).trans (bind_of_error h)
  exact bind_of_error failed

/-- Once a source is connected, the subscription is kept and the one before is marked at once; what
the latter followed is disconnected afterwards. -/
theorem Eval.establish_of_connected {slotOf : SubscriptionId → Slot} {source : Value}
    {callback : Callback} {target : SubscriptionTarget}
    (h : connecting source callback w.nextSubscription perform w.beginSubscription =
      (.ok target, u)) :
    establish slotOf source callback perform w =
      (disconnectPrevious (u.fillSlot (slotOf w.nextSubscription) w.nextSubscription target)
        (u.table.lookup (slotOf w.nextSubscription)) >>= fun _ => pure w.nextSubscription) perform
        (u.keepSlot (slotOf w.nextSubscription) w.nextSubscription target) := by
  have began : newSubscription perform w = (.ok w.nextSubscription, w.beginSubscription) := rfl
  have subscribed : subscribe source callback perform w =
      (.ok w.nextSubscription, u.modifySubscription w.nextSubscription fun s =>
        { s with target }) := (bind_of_ok began).trans (bind_of_ok h)
  refine (bind_of_ok subscribed).trans ?_
  simp only [keep_eq, cancelPrevious_eq, bind_assoc]
  rfl

end runs

namespace Ledger

variable {α : Type} {x : Eval α} {fuel : Nat} {pending : List SubscriptionId} {w : World}
  {entries : List Entry}

/-- A ledger is a record up to the world in which the evaluation ends. -/
theorem record (h : Ledger fuel pending x w entries) :
    Record ⟨w, pending⟩ entries ⟨(x.run fuel w).2, pending⟩ := by
  induction h with
  | still h => exact .still (h _) (.done _)
  | @bind_ok fuel pending w w' entries entries' α β x f a _ result _ hx hf =>
    have run : (x >>= f).run fuel w = (f a).run fuel w' := bind_of_ok result
    rw [result] at hx
    rw [run]
    exact hx.append hf
  | @bind_error fuel pending w w' entries α β x f i _ result hx =>
    have run : (x >>= f).run fuel w = (.error i, w') := bind_of_error result
    rw [result] at hx
    rw [run]
    exact hx
  | exhausted t => exact .single (.asked _ _ t)
  | perform _ ih => exact .entry (.asked _ _ _) ih
  | @attempt fuel pending w entries α x _ ih =>
    rw [Eval.run, attempt_world]
    exact ih
  | bracket entered left _ ih => exact .still entered (ih.still_after (left _))
  | @refused fuel pending w scope name value options a checking made free _ stopped hc =>
    subst made
    have ends : ((Eval.bind scope name value options).run fuel w).2 =
        ((w.attempt scope name value options).check.run fuel w).2 := by
      rcases checked : (w.attempt scope name value options).check.run fuel w with ⟨i | ⟨⟩, u⟩
      · exact congrArg Prod.snd (bindName_of_rejected free checked)
      · exact congrArg Prod.snd (bindName_of_overtaken free checked (stopped u checked))
    rw [ends]
    exact hc
  | @written fuel pending w u scope name value options a checking announcing made free _ checked
      unbarred _ hc ha =>
    subst made
    have ends : ((Eval.bind scope name value options).run fuel w).2 =
        ((w.attempt scope name value options).announce.run fuel
          ((w.attempt scope name value options).write u)).2 :=
      (congrArg Prod.snd (bindName_of_passed free checked unbarred)).trans (bind_pure_world _ _)
    rw [checked] at hc
    rw [ends]
    exact hc.append (.entry (.written u pending _) ha)
  | listened scope name key callback => exact .single (.listened _ _ scope name key callback)
  | unlistened scope name key => exact .single (.unlistened _ _ scope name key)
  | @failed fuel pending w u slotOf source callback i entries _ result hc =>
    have ends : (establish slotOf source callback).run fuel w = (.error i, u) :=
      establish_of_failed result
    rw [result] at hc
    rw [ends]
    exact .entry (.began w pending) (hc.append (.single (.failed u pending _)))
  | @kept fuel pending w u slotOf source callback target entries leaving _ result _ hc hl =>
    have ends : ((establish slotOf source callback).run fuel w).2 = _ :=
      (congrArg Prod.snd (establish_of_connected result)).trans (bind_pure_world _ _)
    rw [result] at hc
    rw [ends]
    exact .entry (.began w pending) (hc.append (.entry (.kept u pending _ _ target) hl))
  | @vacant fuel pending w slot h =>
    have ends : (endSlot slot).run fuel w = (.ok none, w) := by
      rw [Eval.run, endSlot_apply, World.endSlot, h, World.withoutSlot_of_lookup h]
      rfl
    rw [ends]
    exact .done _
  | @ended fuel pending w slot id leaving h _ hl =>
    have ends : ((endSlot slot).run fuel w).2 =
        ((disconnectPrevious (w.withoutSlot slot) (some id)).run fuel (w.endSlot slot)).2 := by
      rw [Eval.run, endSlot_apply, h]
      exact bind_pure_world _ _
    rw [ends]
    exact .entry (.ended w pending h) hl

end Ledger

/-- What happens within an evaluation: only nodes listen to variables, and they go on doing so. -/
def Occurrence.Internal : Occurrence → Prop
  | .listened _ _ key callback => ∃ id, key = Node.relayKey id ∧ callback = .relay id
  | .unlistened .. => False
  | _ => True

def InternalEntries (entries : List Entry) : Prop := ∀ e ∈ entries, e.occurrence.Internal

namespace InternalEntries

variable {e : Entry} {entries entries' : List Entry}

theorem nil : InternalEntries [] := List.forall_mem_nil _

theorem cons (he : e.occurrence.Internal) (h : InternalEntries entries) :
    InternalEntries (e :: entries) := List.forall_mem_cons.mpr ⟨he, h⟩

theorem append (h : InternalEntries entries) (h' : InternalEntries entries') :
    InternalEntries (entries ++ entries') := List.forall_mem_append.mpr ⟨h, h'⟩

end InternalEntries

section brackets

variable {enter : World → World} {leave : World → World → World}

theorem Eval.Bracketing.sameRegistries_enter (hb : Bracketing enter leave) (w : World) :
    w.SameRegistries (enter w) := by
  cases hb <;> exact .of_eq rfl

theorem Eval.Bracketing.sameRegistries_leave (hb : Bracketing enter leave) (w w' : World) :
    w'.SameRegistries (leave w w') := by
  cases hb with
  | scope s => exact .popScope w' s
  | _ => exact .of_eq rfl

end brackets

theorem Eval.popOutOfOrder_sameRegistries (first second : String) (perform : Task → Run Value)
    (w : World) : w.SameRegistries (popOutOfOrder first second perform w).2 := by
  let pushed (w : World) (name : String) : World :=
    (w.addRoot name).2.modifyContext fun c => c.push (w.addRoot name).1
  have hw : (popOutOfOrder first second perform w).2 =
      ((pushed (pushed w first) second).popScope (w.addRoot first).1).popScope
        ((pushed w first).addRoot second).1 := rfl
  have added (w : World) (name : String) : w.SameRegistries (pushed w name) :=
    (World.SameRegistries.addScope w rfl).trans (.of_eq rfl)
  rw [hw]
  exact ((added w first).trans (added _ second)).trans ((World.SameRegistries.popScope _ _).trans
    (.popScope _ _))

/-- From every world the evaluation has a ledger, of what happens within evaluations. -/
def Eval.HasLedger {α : Type} (fuel : Nat) (x : Eval α) : Prop :=
  ∀ pending w, ∃ entries, Ledger fuel pending x w entries ∧ InternalEntries entries

namespace Eval.HasLedger

variable {α β : Type} {x : Eval α} {fuel : Nat}

theorem still (h : ∀ perform (w : World), w.SameRegistries (x perform w).2) : x.HasLedger fuel :=
  fun _ w => ⟨[], .still fun perform => h perform w, .nil⟩

theorem bind {f : α → Eval β} (hx : x.HasLedger fuel) (hf : ∀ a, (f a).HasLedger fuel) :
    (x >>= f).HasLedger fuel := by
  intro pending w
  obtain ⟨entries, he, internal⟩ := hx pending w
  rcases hr : x.run fuel w with ⟨i | a, w'⟩
  · exact ⟨entries, .bind_error he hr, internal⟩
  · obtain ⟨entries', he', internal'⟩ := hf a pending w'
    exact ⟨entries ++ entries', .bind_ok he hr he', internal.append internal'⟩

theorem attempt (hx : x.HasLedger fuel) : (Eval.attempt x).HasLedger fuel := by
  intro pending w
  obtain ⟨entries, he, internal⟩ := hx pending w
  exact ⟨entries, .attempt he, internal⟩

theorem bracket {enter : World → World} {leave : World → World → World}
    (entered : ∀ w : World, w.SameRegistries (enter w))
    (left : ∀ w w' : World, w'.SameRegistries (leave w w')) (hx : x.HasLedger fuel) :
    (Eval.bracket enter leave x).HasLedger fuel := by
  intro pending w
  obtain ⟨entries, he, internal⟩ := hx pending (enter w)
  exact ⟨entries, .bracket (entered w) (left w) he, internal⟩

theorem holding (held : List Held) (hx : x.HasLedger fuel) :
    (Eval.holding held x).HasLedger fuel := by
  show (Eval.bracket (fun w => { w with inUse := held ++ w.inUse })
    (fun w w' => { w' with inUse := w.inUse }) x).HasLedger fuel
  exact bracket (fun _ => .of_eq rfl) (fun _ _ => .of_eq rfl) hx

theorem bindName (scope : ScopeId) (name : String) (value : Value) (options : BindOptions)
    (hc : ∀ a : BindAttempt, a.check.HasLedger fuel)
    (ha : ∀ a : BindAttempt, a.announce.HasLedger fuel) :
    (Eval.bind scope name value options).HasLedger fuel := by
  intro pending w
  generalize made : w.attempt scope name value options = a
  by_cases barred : a.Barred w
  · refine ⟨[], .still fun perform => ?_, .nil⟩
    subst made
    rw [bindName_of_barred barred]
    exact .refl w
  obtain ⟨checking, check, internal⟩ := hc a pending w
  rcases checked : a.check.run fuel w with ⟨i | ⟨⟩, u⟩
  · exact ⟨checking, .refused made barred check fun _ h => by simp [checked] at h, internal⟩
  by_cases late : a.Barred u
  · refine ⟨checking, .refused made barred check fun u' h => ?_, internal⟩
    rw [checked] at h
    cases h
    exact late
  · obtain ⟨announcing, announce, internal'⟩ := ha a pending (a.write u)
    exact ⟨_, .written made barred check checked late announce,
      internal.append (.cons trivial internal')⟩

theorem disconnectPrevious (hd : ∀ id target, (disconnect id target).HasLedger fuel) (w : World)
    (previous : Option SubscriptionId) : (Eval.disconnectPrevious w previous).HasLedger fuel := by
  cases previous with
  | none => exact .still fun _ w => .refl w
  | some id => exact hd id _

theorem establish (slotOf : SubscriptionId → Slot) (source : Value) {callback : Callback}
    (hc : ∀ name id, (connect source name (.guarded id callback)).HasLedger fuel)
    (hd : ∀ id target, (disconnect id target).HasLedger fuel) :
    (Eval.establish slotOf source callback).HasLedger fuel := by
  intro pending w
  have connected : (connecting source callback w.nextSubscription).HasLedger fuel :=
    holding _ (hc _ _)
  obtain ⟨entries, he, internal⟩ := connected (w.nextSubscription :: pending) w.beginSubscription
  rcases result : (connecting source callback w.nextSubscription).run fuel w.beginSubscription with
    ⟨i | target, u⟩
  · exact ⟨_, .failed he result,
      .cons trivial (internal.append (.cons trivial .nil))⟩
  · obtain ⟨leaving, left, internal'⟩ := disconnectPrevious hd
      (u.fillSlot (slotOf w.nextSubscription) w.nextSubscription target)
      (u.table.lookup (slotOf w.nextSubscription)) pending
      (u.keepSlot (slotOf w.nextSubscription) w.nextSubscription target)
    exact ⟨_, .kept he result left, .cons trivial (internal.append (.cons trivial internal'))⟩

theorem endSlot (slot : Slot) (hd : ∀ id target, (disconnect id target).HasLedger fuel) :
    (Eval.endSlot slot).HasLedger fuel := by
  intro pending w
  cases h : w.table.lookup slot with
  | none => exact ⟨[], .vacant h, .nil⟩
  | some id =>
    obtain ⟨leaving, left, internal⟩ := disconnectPrevious hd (w.withoutSlot slot) (some id) pending
      (w.endSlot slot)
    exact ⟨_, .ended h left, .cons trivial internal⟩

end Eval.HasLedger

namespace Eval

variable {α : Type} {x : Eval α} {fuel : Nat}

/-- A protocol has ledgers if the tasks do that it asks for. -/
theorem Protocol.hasLedger (hx : Protocol (fun _ => True) x)
    (hp : ∀ t, (Eval.perform t).HasLedger fuel) : x.HasLedger fuel := by
  induction hx with
  | bind _ _ hx hf => exact .bind hx hf
  | look _ hf =>
    exact .bind (.still fun _ w => .refl w) fun w => hf w (w.allowed_of_forall fun _ => trivial)
  | change _ hs => exact .still fun _ w => hs w (w.allowed_of_forall fun _ => trivial)
  | perform _ => exact hp _
  | attempt _ hx => exact .attempt hx
  | bracket hb _ hx => exact .bracket hb.sameRegistries_enter hb.sameRegistries_leave hx
  | takeCorruption => exact .still fun _ _ => .of_eq rfl
  | popOutOfOrder _ => exact .still fun perform w => popOutOfOrder_sameRegistries _ _ perform w
  | binding scope name value options _ _ hc ha => exact .bindName scope name value options hc ha
  | relay scope name id =>
    exact fun _ _ => ⟨_, .listened scope name _ _, .cons ⟨id, rfl, rfl⟩ .nil⟩
  | establish slotOf source _ _ hc hd => exact .establish slotOf source hc hd
  | endSlot slot _ hd => exact .endSlot slot hd
  | _ => exact .still fun _ w => .refl w

theorem hasLedger_notify (hp : ∀ t, (Eval.perform t).HasLedger fuel) (id : NodeId) :
    (notify id).HasLedger fuel := by
  have announced : (announce id).HasLedger fuel := (Protocol.announce id).hasLedger hp
  refine .bind (.still fun _ w => .refl w) fun c => ?_
  split
  · exact .still fun _ _ => .of_eq rfl
  · have marked : (Eval.bracket (fun w => w.enterNotify id) (fun _ w' => w'.leaveNotify id)
        (announce id)).HasLedger fuel :=
      .bracket (fun _ => .of_eq rfl) (fun _ _ => .of_eq rfl) announced
    exact marked

theorem hasLedger_perform (fuel : Nat) (t : Task) : (perform t).HasLedger fuel := by
  induction fuel generalizing t with
  | zero => exact fun _ _ => ⟨_, .exhausted t, .cons trivial .nil⟩
  | succ fuel ih =>
    have step : (Eval.step t).HasLedger fuel := by
      induction t using step_cases with
      -- A refused notification takes a mark away that it has not set, which no bracket does.
      | notify id => exact hasLedger_notify ih id
      | routine t hn => exact (Protocol.step (t.allowed_of_forall fun _ => trivial) hn).hasLedger ih
    intro pending w
    obtain ⟨entries, he, internal⟩ := step pending w
    exact ⟨_, .perform he, .cons trivial internal⟩

/-- Every protocol has a ledger from every world. -/
theorem Protocol.ledger (hx : Protocol (fun _ => True) x) (fuel : Nat)
    (pending : List SubscriptionId) (w : World) :
    ∃ entries, Ledger fuel pending x w entries ∧ InternalEntries entries :=
  hx.hasLedger (hasLedger_perform fuel) pending w

end Eval
end ReactiveScript
