import Mathlib.Data.List.Nodup
import ReactiveScript.Proofs.Ledger

/-!
# The registry of subscriptions

The table of slots and the marks of cancelled subscriptions are kept in step: no entry of a ledger
puts a subscription into two slots, a slot to two uses, or a cancelled subscription into the table.
A subscription in the table is left in its slot by an entry, or it is cancelled and taken out in one
step, and what is over stays over.
-/

namespace ReactiveScript

open Eval

/-- An element of a list on whose elements a function takes no value twice is the only one with its
value. -/
theorem filter_eq_singleton_of_nodup_map {α β : Type} [DecidableEq β] {f : α → β} {l : List α} {a : α}
    (unique : (l.map f).Nodup) (h : a ∈ l) : l.filter (fun e => f e = f a) = [a] := by
  induction l with
  | nil => cases h
  | cons e rest ih =>
    obtain ⟨fresh, unique⟩ := List.nodup_cons.mp unique
    rcases List.mem_cons.mp h with rfl | h
    · have none : rest.filter (fun e => f e = f a) = [] := by
        refine List.filter_eq_nil_iff.mpr fun e he => ?_
        have other : f e ≠ f a := fun hf => fresh (hf ▸ List.mem_map_of_mem he)
        simpa using other
      simp [none]
    · have other : f e ≠ f a := fun hf => fresh (hf ▸ List.mem_map_of_mem h)
      simp [other, ih unique h]

namespace World

variable {w : World} {id other : SubscriptionId} {slot : Slot} {target : SubscriptionTarget}

theorem subscription?_modify (hid : id ≠ 0) (f : Subscription → Subscription)
    (other : SubscriptionId) :
    (w.modifySubscription id f).subscription? other =
      if other = id then (w.subscription? id).map f else w.subscription? other := by
  simp only [subscription?, modifySubscription, Array.getElem?_modify, if_neg hid]
  by_cases h : other = id
  · subst h
    simp [hid]
  · by_cases hz : other = 0
    · simp [hz, Ne.symm hid]
    · have apart : id - 1 ≠ other - 1 := fun he =>
        h (Nat.sub_one_cancel (Nat.pos_of_ne_zero hz) (Nat.pos_of_ne_zero hid) he.symm)
      simp [hz, h, apart]

theorem isCancelled_iff :
    w.isCancelled id ↔ ∃ s, w.subscription? id = some s ∧ s.cancelled = true := by
  simp [isCancelled, Option.any_eq_true]

theorem followed?_isSome_iff :
    (w.followed? id).isSome ↔ ∃ s, w.subscription? id = some s ∧ s.cancelled = false := by
  unfold followed?
  rcases w.subscription? id with _ | ⟨target, _ | _⟩ <;> simp

theorem not_isCancelled_of_followed? (h : (w.followed? id).isSome) : ¬ w.isCancelled id := by
  obtain ⟨s, hs, live⟩ := followed?_isSome_iff.mp h
  intro hc
  obtain ⟨s', hs', ended⟩ := isCancelled_iff.mp hc
  cases hs.symm.trans hs'
  simp [live] at ended

theorem ne_zero_of_followed? (h : (w.followed? id).isSome) : id ≠ 0 := by
  rintro rfl
  simp [followed?, subscription?] at h

theorem le_size_of_followed? (h : (w.followed? id).isSome) : id ≤ w.subscriptions.size := by
  refine Nat.le_of_not_lt fun lt => ?_
  have absent : w.subscription? id = none := by
    simp only [subscription?, if_neg (ne_zero_of_followed? h), Array.getElem?_eq_none_iff]
    exact Nat.le_sub_one_of_lt lt
  simp [followed?, absent] at h

/-- Everything that a change makes of the marks of subscriptions: some are set, none is taken
away. -/
theorem isCancelled_endSubscription (h : (w.followed? id).isSome) (other : SubscriptionId) :
    (w.endSubscription id).isCancelled other ↔ other = id ∨ w.isCancelled other := by
  obtain ⟨target, ht⟩ := Option.isSome_iff_exists.mp h
  obtain ⟨s, hs, -⟩ := followed?_isSome_iff.mp h
  simp only [endSubscription, ht, isCancelled, subscription?_modify (ne_zero_of_followed? h)]
  by_cases ho : other = id <;> simp [ho, hs]

theorem followed?_endSubscription (h : (w.followed? id).isSome) (ho : other ≠ id) :
    (w.endSubscription id).followed? other = w.followed? other := by
  obtain ⟨target, ht⟩ := Option.isSome_iff_exists.mp h
  have same : (w.endSubscription id).subscription? other = w.subscription? other := by
    simp only [endSubscription, ht, subscription?_modify (ne_zero_of_followed? h), if_neg ho]
  simp only [followed?, same]

/-- What a subscription follows is no part of whether it is cancelled. -/
theorem isCancelled_follow (w : World) (id : SubscriptionId) (target : SubscriptionTarget)
    (other : SubscriptionId) :
    (w.modifySubscription id fun s => { s with target }).isCancelled other =
      w.isCancelled other := by
  simp only [isCancelled, subscription?, modifySubscription, Array.getElem?_modify]
  by_cases hz : other = 0
  · simp [hz]
  · by_cases hi : id - 1 = other - 1
    · cases w.subscriptions[other - 1]? <;> simp [hz, hi]
    · simp [hi]

theorem followed?_follow (w : World) (id : SubscriptionId) (target : SubscriptionTarget)
    (other : SubscriptionId) :
    ((w.modifySubscription id fun s => { s with target }).followed? other).isSome =
      (w.followed? other).isSome := by
  simp only [followed?, subscription?, modifySubscription, Array.getElem?_modify]
  by_cases hz : other = 0
  · simp [hz]
  · by_cases hi : id - 1 = other - 1
    · rcases w.subscriptions[other - 1]? with _ | ⟨_, _ | _⟩ <;> simp [hz, hi]
    · simp [hi]

section previous

variable {previous : Option SubscriptionId}
  (valid : ∀ id, previous = some id → (w.followed? id).isSome)
include valid

theorem isCancelled_endPrevious (other : SubscriptionId) :
    (w.endPrevious previous).isCancelled other ↔ previous = some other ∨ w.isCancelled other := by
  cases previous with
  | none => simp [endPrevious]
  | some id =>
    have ended := isCancelled_endSubscription (valid id rfl) other
    rwa [Option.some_inj, eq_comm (a := id)]

theorem followed?_endPrevious (ho : previous ≠ some other) :
    (w.endPrevious previous).followed? other = w.followed? other := by
  cases previous with
  | none => rfl
  | some id => exact followed?_endSubscription (valid id rfl) fun h => ho (h ▸ rfl)

end previous

@[simp] theorem table_endPrevious (w : World) (previous : Option SubscriptionId) :
    (w.endPrevious previous).table = w.table := by
  cases previous with
  | none => rfl
  | some id =>
    show (w.endSubscription id).table = w.table
    unfold endSubscription
    split <;> rfl

end World

/-- The registry is in order: no slot and no subscription is in the table twice, and what is in the
table or pending is not cancelled, and not both. -/
structure Affairs.InOrder (s : Affairs) : Prop where
  slots : (s.world.table.map Prod.fst).Nodup
  kept : (s.world.table.map Prod.snd).Nodup
  live : ∀ e ∈ s.world.table, (s.world.followed? e.2).isSome
  pending : ∀ id ∈ s.pending, (s.world.followed? id).isSome ∧ id ∉ s.world.table.map Prod.snd
  once : s.pending.Nodup

namespace World

/-- The table has a subscription under exactly one slot, and it is not cancelled. -/
def Live (w : World) (slot : Slot) (id : SubscriptionId) : Prop :=
  w.table.filter (fun e => e.2 = id) = [(slot, id)] ∧ ¬ w.isCancelled id

/-- A subscription is cancelled and not in the table. -/
def Over (w : World) (id : SubscriptionId) : Prop :=
  w.isCancelled id ∧ id ∉ w.table.map Prod.snd

theorem Live.mem {w : World} {slot : Slot} {id : SubscriptionId} (h : w.Live slot id) :
    (slot, id) ∈ w.table := by
  have hm : (slot, id) ∈ w.table.filter fun e => e.2 = id := by
    rw [h.1]
    exact List.mem_singleton_self _
  exact List.mem_of_mem_filter hm

end World

namespace Affairs.InOrder

variable {w : World} {pending : List SubscriptionId} {slot slot' : Slot} {id : SubscriptionId}
  {e : Slot × SubscriptionId}

/-- The table has at most one entry of a slot. -/
theorem eq_of_slot (h : InOrder ⟨w, pending⟩) (he : e ∈ w.table) {e' : Slot × SubscriptionId}
    (he' : e' ∈ w.table) (hs : e.1 = e'.1) : e = e' := List.inj_on_of_nodup_map h.slots he he' hs

/-- The table has at most one entry of a subscription. -/
theorem eq_of_id (h : InOrder ⟨w, pending⟩) (he : e ∈ w.table) {e' : Slot × SubscriptionId}
    (he' : e' ∈ w.table) (hs : e.2 = e'.2) : e = e' := List.inj_on_of_nodup_map h.kept he he' hs

theorem mem_of_lookup (h : w.table.lookup slot = some id) : (slot, id) ∈ w.table := by
  obtain ⟨l, _, he, -⟩ := List.lookup_eq_some_iff.mp h
  rw [he]
  simp

theorem lookup_of_mem (h : InOrder ⟨w, pending⟩) (hm : (slot, id) ∈ w.table) :
    w.table.lookup slot = some id := by
  cases hl : w.table.lookup slot with
  | none => simpa using List.lookup_eq_none_iff.mp hl _ hm
  | some id' =>
    cases h.eq_of_slot hm (mem_of_lookup hl) rfl
    rfl

end Affairs.InOrder

theorem Affairs.InOrder.live_iff {s : Affairs} (h : s.InOrder) {slot : Slot} {id : SubscriptionId} :
    s.world.Live slot id ↔ (slot, id) ∈ s.world.table :=
  ⟨World.Live.mem, fun hm => ⟨filter_eq_singleton_of_nodup_map (f := Prod.snd) h.kept hm,
    World.not_isCancelled_of_followed? (h.live _ hm)⟩⟩

section steps

variable {w : World} {pending : List SubscriptionId} {slot slot' : Slot} {id id' : SubscriptionId}
  {target : SubscriptionTarget}

namespace World

theorem beginSubscription_subscription? (w : World) (id : SubscriptionId) :
    w.beginSubscription.subscription? id =
      if id = w.nextSubscription then some {} else w.subscription? id := by
  simp only [subscription?, beginSubscription, nextSubscription, Array.getElem?_push]
  by_cases hz : id = 0
  · simp [hz]
  · have shifted : id - 1 = w.subscriptions.size ↔ id = w.subscriptions.size + 1 :=
      ⟨fun h => by rw [← h, Nat.sub_add_cancel (Nat.pos_of_ne_zero hz)], fun h => by simp [h]⟩
    simp [hz, shifted]

theorem subscription?_nextSubscription (w : World) : w.subscription? w.nextSubscription = none := by
  simp [subscription?, nextSubscription]

theorem isCancelled_beginSubscription (w : World) (id : SubscriptionId) :
    w.beginSubscription.isCancelled id = w.isCancelled id := by
  simp only [isCancelled, beginSubscription_subscription?]
  split
  · next h => simp [h, subscription?_nextSubscription]
  · rfl

theorem followed?_beginSubscription (w : World) (id : SubscriptionId) :
    (w.beginSubscription.followed? id).isSome ↔ id = w.nextSubscription ∨ (w.followed? id).isSome := by
  simp only [followed?, beginSubscription_subscription?]
  by_cases h : id = w.nextSubscription <;> simp [h]

/-- The table after a slot was cleared has the entries of the other slots. -/
theorem mem_table_withoutSlot {e : Slot × SubscriptionId} :
    e ∈ (w.withoutSlot slot).table ↔ e ∈ w.table ∧ e.1 ≠ slot := by
  simp [withoutSlot]

theorem table_endSlot (w : World) (slot : Slot) :
    (w.endSlot slot).table = (w.withoutSlot slot).table := table_endPrevious _ _

theorem table_keepSlot (w : World) (slot : Slot) (id : SubscriptionId)
    (target : SubscriptionTarget) :
    (w.keepSlot slot id target).table = (w.withoutSlot slot).table ++ [(slot, id)] :=
  table_endPrevious _ _

end World

namespace Affairs.InOrder

/-- The subscription that a slot holds is not cancelled. -/
theorem previous_valid (h : InOrder ⟨w, pending⟩) (slot : Slot) (id : SubscriptionId)
    (hl : w.table.lookup slot = some id) : (w.followed? id).isSome := h.live _ (mem_of_lookup hl)

theorem previous_valid_fillSlot (h : InOrder ⟨w, pending⟩) (slot : Slot) (id : SubscriptionId)
    (target : SubscriptionTarget) (old : SubscriptionId) (hl : w.table.lookup slot = some old) :
    ((w.fillSlot slot id target).followed? old).isSome :=
  (w.followed?_follow id target old).trans (h.previous_valid slot old hl)

/-- Subscriptions other than the one of a slot are in another slot. -/
theorem lookup_ne (h : InOrder ⟨w, pending⟩) {e : Slot × SubscriptionId} (he : e ∈ w.table)
    (hs : e.1 ≠ slot) : w.table.lookup slot ≠ some e.2 := by
  intro hl
  exact hs (congrArg Prod.fst (h.eq_of_id he (mem_of_lookup hl) rfl))

theorem isCancelled_endSlot (h : InOrder ⟨w, pending⟩) (slot : Slot) (id : SubscriptionId) :
    (w.endSlot slot).isCancelled id ↔ w.table.lookup slot = some id ∨ w.isCancelled id :=
  World.isCancelled_endPrevious (w := w.withoutSlot slot) (h.previous_valid slot) id

theorem isCancelled_keepSlot (h : InOrder ⟨w, pending⟩) (slot : Slot) (id : SubscriptionId)
    (target : SubscriptionTarget) (other : SubscriptionId) :
    (w.keepSlot slot id target).isCancelled other ↔
      w.table.lookup slot = some other ∨ w.isCancelled other := by
  rw [World.keepSlot, World.isCancelled_endPrevious (h.previous_valid_fillSlot slot id target)]
  exact or_congr_right (iff_of_eq (congrArg (· = true) (w.isCancelled_follow id target other)))

theorem followed?_endSlot (h : InOrder ⟨w, pending⟩) (hl : w.table.lookup slot ≠ some id) :
    (w.endSlot slot).followed? id = w.followed? id :=
  World.followed?_endPrevious (w := w.withoutSlot slot) (h.previous_valid slot) hl

theorem followed?_keepSlot (h : InOrder ⟨w, pending⟩) {other : SubscriptionId}
    (hl : w.table.lookup slot ≠ some other) :
    ((w.keepSlot slot id target).followed? other).isSome = (w.followed? other).isSome := by
  rw [World.keepSlot, World.followed?_endPrevious (h.previous_valid_fillSlot slot id target) hl]
  exact w.followed?_follow id target other

theorem of_registries {w' : World} (h : InOrder ⟨w, pending⟩)
    (hs : w'.subscriptions = w.subscriptions) (ht : w'.table = w.table) : InOrder ⟨w', pending⟩ := by
  have followed (id : SubscriptionId) : w'.followed? id = w.followed? id := by
    simp only [World.followed?, World.subscription?, hs]
  obtain ⟨slots, kept, live, waiting, once⟩ := h
  constructor <;> simpa only [ht, followed]

theorem endSlot (h : InOrder ⟨w, pending⟩) (slot : Slot) : InOrder ⟨w.endSlot slot, pending⟩ := by
  have sub : (w.endSlot slot).table.Sublist w.table := by
    rw [World.table_endSlot]
    exact List.filter_sublist
  refine ⟨h.slots.sublist (sub.map _), h.kept.sublist (sub.map _), fun e he => ?_, fun id hid => ?_,
    h.once⟩
  · rw [World.table_endSlot] at he
    obtain ⟨he, hs⟩ := World.mem_table_withoutSlot.mp he
    show ((w.endSlot slot).followed? e.2).isSome
    rw [h.followed?_endSlot (h.lookup_ne he hs)]
    exact h.live e he
  · obtain ⟨valid, apart⟩ := h.pending id hid
    refine ⟨?_, fun hm => apart ((sub.map _).subset hm)⟩
    show ((w.endSlot slot).followed? id).isSome
    rw [h.followed?_endSlot fun hl => apart (List.mem_map_of_mem (f := Prod.snd) (mem_of_lookup hl))]
    exact valid

theorem keepSlot (h : InOrder ⟨w, id :: pending⟩) (slot : Slot) (target : SubscriptionTarget) :
    InOrder ⟨w.keepSlot slot id target, pending⟩ := by
  obtain ⟨valid, new⟩ := h.pending id List.mem_cons_self
  obtain ⟨apart, once⟩ := List.nodup_cons.mp h.once
  have table := w.table_keepSlot slot id target
  have sub : (w.withoutSlot slot).table.Sublist w.table := List.filter_sublist
  have vacant : slot ∉ (w.withoutSlot slot).table.map Prod.fst := by
    intro hm
    obtain ⟨e, he, rfl⟩ := List.mem_map.mp hm
    exact (World.mem_table_withoutSlot.mp he).2 rfl
  have absent : id ∉ (w.withoutSlot slot).table.map Prod.snd := fun hm =>
    new ((sub.map _).subset hm)
  refine ⟨?_, ?_, fun e he => ?_, fun id' hid => ?_, once⟩
  · show ((w.keepSlot slot id target).table.map Prod.fst).Nodup
    rw [table, List.map_append]
    exact (h.slots.sublist (sub.map _)).append (List.nodup_singleton _) (by simpa using vacant)
  · show ((w.keepSlot slot id target).table.map Prod.snd).Nodup
    rw [table, List.map_append]
    exact (h.kept.sublist (sub.map _)).append (List.nodup_singleton _) (by simpa using absent)
  · show ((w.keepSlot slot id target).followed? e.2).isSome
    rw [table] at he
    rcases List.mem_append.mp he with he | he
    · obtain ⟨he, hs⟩ := World.mem_table_withoutSlot.mp he
      rw [h.followed?_keepSlot (h.lookup_ne he hs)]
      exact h.live e he
    · cases List.mem_singleton.mp he
      rw [h.followed?_keepSlot fun hl => new (List.mem_map_of_mem (f := Prod.snd) (mem_of_lookup hl))]
      exact valid
  · obtain ⟨valid', new'⟩ := h.pending id' (List.mem_cons_of_mem _ hid)
    refine ⟨?_, ?_⟩
    · show ((w.keepSlot slot id target).followed? id').isSome
      rw [h.followed?_keepSlot fun hl =>
        new' (List.mem_map_of_mem (f := Prod.snd) (mem_of_lookup hl))]
      exact valid'
    · show id' ∉ (w.keepSlot slot id target).table.map Prod.snd
      rw [table, List.map_append, List.mem_append]
      rintro (hm | hm)
      · exact new' ((sub.map _).subset hm)
      · exact apart ((List.mem_singleton.mp hm : id' = id) ▸ hid)

theorem beginSubscription (h : InOrder ⟨w, pending⟩) :
    InOrder ⟨w.beginSubscription, w.nextSubscription :: pending⟩ := by
  have fresh {id : SubscriptionId} (valid : (w.followed? id).isSome) : id ≠ w.nextSubscription := by
    rintro rfl
    simp [World.followed?, World.subscription?_nextSubscription] at valid
  have still {id : SubscriptionId} (valid : (w.followed? id).isSome) :
      (w.beginSubscription.followed? id).isSome := (w.followed?_beginSubscription id).mpr (.inr valid)
  refine ⟨h.slots, h.kept, fun e he => still (h.live e he), fun id hid => ?_, ?_⟩
  · rcases List.mem_cons.mp hid with rfl | hid
    · refine ⟨(w.followed?_beginSubscription _).mpr (.inl rfl), fun hm => ?_⟩
      obtain ⟨e, he, hid⟩ := List.mem_map.mp hm
      exact fresh (h.live e he) hid
    · exact ⟨still (h.pending id hid).1, (h.pending id hid).2⟩
  · exact List.nodup_cons.mpr ⟨fun hm => fresh (h.pending _ hm).1 rfl, h.once⟩

theorem failed (h : InOrder ⟨w, id :: pending⟩) : InOrder ⟨w, pending⟩ :=
  ⟨h.slots, h.kept, h.live, fun id' hid => h.pending id' (List.mem_cons_of_mem _ hid),
    (List.nodup_cons.mp h.once).2⟩

end Affairs.InOrder

end steps

namespace Entry.Legal

variable {e : Entry} {slot : Slot} {id : SubscriptionId}

/-- Every entry leaves the registry in order. -/
theorem inOrder (h : e.Legal) (ordered : e.before.InOrder) : e.after.InOrder := by
  cases h with
  | asked => exact ordered
  | written w pending a => exact ordered.of_registries rfl rfl
  | listened => exact ordered.of_registries rfl rfl
  | unlistened => exact ordered.of_registries rfl rfl
  | began => exact ordered.beginSubscription
  | failed => exact ordered.failed
  | kept w pending slot id target => exact ordered.keepSlot slot target
  | ended w pending hl => exact ordered.endSlot _

/-- What is cancelled stays cancelled. -/
theorem isCancelled (h : e.Legal) (ordered : e.before.InOrder)
    (ended : e.before.world.isCancelled id) : e.after.world.isCancelled id := by
  cases h with
  | began w pending => exact (w.isCancelled_beginSubscription id).trans ended
  | kept w pending slot id' target =>
    exact (ordered.isCancelled_keepSlot slot id' target id).mpr (.inr ended)
  | @ended w pending slot id' hl => exact (ordered.isCancelled_endSlot slot id).mpr (.inr ended)
  | _ => exact ended

/-- An entry leaves a subscription in its slot or ends it. -/
theorem mem_or_over (h : e.Legal) (ordered : e.before.InOrder)
    (hm : (slot, id) ∈ e.before.world.table) :
    (slot, id) ∈ e.after.world.table ∨ e.after.world.Over id := by
  cases h with
  | kept w pending slot' id' target =>
    obtain ⟨-, new⟩ := ordered.pending id' List.mem_cons_self
    have table := w.table_keepSlot slot' id' target
    by_cases hs : slot = slot'
    · subst hs
      refine .inr ⟨(ordered.isCancelled_keepSlot slot id' target id).mpr
        (.inl (ordered.lookup_of_mem hm)), fun hover => ?_⟩
      obtain ⟨e, he, rfl⟩ := List.mem_map.mp hover
      rcases List.mem_append.mp (table ▸ he) with he | he
      · obtain ⟨he, hs⟩ := World.mem_table_withoutSlot.mp he
        exact hs (congrArg Prod.fst (ordered.eq_of_id hm he rfl)).symm
      · cases List.mem_singleton.mp he
        exact new (List.mem_map_of_mem (f := Prod.snd) hm)
    · refine .inl ?_
      show (slot, id) ∈ (w.keepSlot slot' id' target).table
      rw [table]
      exact List.mem_append_left _ (World.mem_table_withoutSlot.mpr ⟨hm, hs⟩)
  | @ended w pending slot' id' hl =>
    by_cases hs : slot = slot'
    · subst hs
      refine .inr ⟨(ordered.isCancelled_endSlot slot id).mpr (.inl (ordered.lookup_of_mem hm)),
        fun hover => ?_⟩
      obtain ⟨e, he, rfl⟩ := List.mem_map.mp hover
      obtain ⟨he, hs⟩ := World.mem_table_withoutSlot.mp (w.table_endSlot slot ▸ he)
      exact hs (congrArg Prod.fst (ordered.eq_of_id hm he rfl)).symm
    · refine .inl ?_
      show (slot, id) ∈ (w.endSlot slot').table
      rw [World.table_endSlot]
      exact World.mem_table_withoutSlot.mpr ⟨hm, hs⟩
  | _ => exact .inl hm

/-- What is over stays over. -/
theorem stays_over (h : e.Legal) (ordered : e.before.InOrder) (ended : e.before.world.Over id) :
    e.after.world.Over id := by
  refine ⟨h.isCancelled ordered ended.1, fun hm => ?_⟩
  obtain ⟨e', he', rfl⟩ := List.mem_map.mp hm
  exact World.not_isCancelled_of_followed? ((h.inOrder ordered).live e' he')
    (h.isCancelled ordered ended.1)

end Entry.Legal

end ReactiveScript
