import ReactiveScript.Proofs.Queues
import ReactiveScript.Proofs.Subscriptions

/-!
# Polling

A poll takes the items of a queue one after the other and hands each of them to a callback. Whether
the subscription is cancelled is looked at when an item is handed over, and not when it is taken; so
a poll during which the subscription is cancelled goes on to take what is left, and loses it. What
it has taken before the cancellation was passed on, and a subscription that is cancelled while it is
not polled leaves the queue as it is.
-/

namespace ReactiveScript

open Eval

section cancelled

variable {w w' : World} {s : SubscriptionId}

theorem World.isCancelled_mark (id : SubscriptionId) (ended : w.isCancelled s) :
    (w.modifySubscription id fun sub => { sub with cancelled := true }).isCancelled s := by
  simp only [isCancelled, subscription?, modifySubscription, Array.getElem?_modify] at ended ⊢
  by_cases hz : s = 0
  · simp [hz] at ended
  · by_cases hi : id - 1 = s - 1
    · cases h : w.subscriptions[s - 1]? with
      | none => simp [hz, h] at ended
      | some sub => simp [hz, hi]
    · simpa [hz, hi] using ended

/-- A subscription that is cancelled stays so. -/
def World.KeepsCancelled (w w' : World) : Prop := ∀ s, w.isCancelled s → w'.isCancelled s

theorem cancelled_kept : Tracks (fun _ => True) World.KeepsCancelled where
  still same s ended := by
    rw [World.isCancelled_congr same.subscriptions]
    exact ended
  trans h h' s ended := h' s (h s ended)
  change {w w'} h s ended := by
    cases h with
    | report severity message fields =>
      rw [World.isCancelled_congr (World.SameHoldings.report w _ _ _).subscriptions]
      exact ended
    | subscribe => exact (w.isCancelled_beginSubscription s).trans ended
    | follow id target => exact (w.isCancelled_follow id target s).trans ended
    | cancel id => exact World.isCancelled_mark id ended
    | _ => exact ended

end cancelled

namespace World

def counted (w : World) (id : ResourceId) : World :=
  w.modifyResource id fun r =>
    match r.backend with
    | .queue b => { r with backend := .queue { b with delivered := b.delivered + 1 } }
    | .recording _ => r

/-- The world in which an item is handed to a callback. -/
def handing (w : World) (v : Value) (c : Callback) : World :=
  { w with inUse := v.held ++ c.held ++ w.inUse }

end World

/-- Hands an item to a callback; an error of the callback is dropped. -/
def Eval.handOver (c : Callback) (v : Value) : Eval (Except EvalError Value) :=
  attempt (holding (v.held ++ c.held) (perform (.deliver c v)))

theorem Eval.poll_eq (id : ResourceId) (c : Callback) :
    poll id c = (do
      match ← modifyGet fun w => w.nextItem id with
      | none => return .void
      | some v => do
        let _ ← handOver c v
        modify fun w => w.counted id
        perform (.poll id c)) := rfl

/-- An item that a poll has taken, with the world in which it is handed over and the one that the
callback leaves behind. -/
structure Handover where
  item : Value
  before : World
  after : World

/-- The handovers of a poll, and how it ends. -/
inductive Polling (id : ResourceId) (c : Callback) :
    Nat → World → List Handover → Except Interrupt Value × World → Prop where
  | exhausted (w : World) : Polling id c 0 w [] (.error .exhausted, w)
  /-- The queue is empty or paused. -/
  | idle {fuel : Nat} {w : World} (h : (w.nextItem id).1 = none) :
      Polling id c (fuel + 1) w [] (.ok .void, w)
  | cut {fuel : Nat} {w u u' : World} {v : Value} {i : Interrupt}
      (taken : w.nextItem id = (some v, u)) (handed : (handOver c v).run fuel u = (.error i, u')) :
      Polling id c (fuel + 1) w [⟨v, u.handing v c, u'⟩] (.error i, u')
  | next {fuel : Nat} {w u u' : World} {v : Value} {r : Except EvalError Value}
      {later : List Handover} {result : Except Interrupt Value × World}
      (taken : w.nextItem id = (some v, u)) (handed : (handOver c v).run fuel u = (.ok r, u'))
      (rest : Polling id c fuel (u'.counted id) later result) :
      Polling id c (fuel + 1) w (⟨v, u.handing v c, u'⟩ :: later) result

/-- A callback has been run on the item. -/
def Handover.PassedTo (d : Handover) (user : Callback) : Prop := ∃ fuel result u,
  deliver user d.item (performWith fuel) d.before = (result, u) ∧
    d.after = { u with inUse := d.after.inUse }

/-- Nothing has been done with the item. -/
def Handover.Dropped (d : Handover) : Prop := d.after = { d.before with inUse := d.after.inUse }

section polls

variable {id : ResourceId} {c : Callback} {fuel : Nat} {w u w' : World} {v : Value}

theorem World.nextItem_of_none (h : (w.nextItem id).1 = none) : (w.nextItem id).2 = w := by
  unfold World.nextItem at h ⊢
  split at h
  · split at h
    · cases h
    · rfl
  · rfl

section runs

variable {u' : World}

theorem poll_of_taken {a : Option Value} (taken : w.nextItem id = (a, u)) :
    performWith (fuel + 1) (.poll id c) w =
      (match a with
        | none => (pure .void : Eval Value)
        | some v => do
          let _ ← handOver c v
          modify fun w => w.counted id
          perform (.poll id c)) (performWith fuel) u := by
  have take : (modifyGet fun w => w.nextItem id : Eval (Option Value)) (performWith fuel) w =
      (.ok a, u) := by
    show (Except.ok (w.nextItem id).1, (w.nextItem id).2) = _
    rw [taken]
  show poll id c (performWith fuel) w = _
  rw [poll_eq, bind_of_ok take]

theorem poll_of_idle (h : (w.nextItem id).1 = none) :
    performWith (fuel + 1) (.poll id c) w = (.ok .void, w) :=
  poll_of_taken (Prod.ext h (World.nextItem_of_none h))

theorem poll_of_cut {i : Interrupt} (taken : w.nextItem id = (some v, u))
    (handed : (handOver c v).run fuel u = (.error i, u')) :
    performWith (fuel + 1) (.poll id c) w = (.error i, u') :=
  (poll_of_taken taken).trans (bind_of_error handed)

theorem poll_of_next {r : Except EvalError Value} (taken : w.nextItem id = (some v, u))
    (handed : (handOver c v).run fuel u = (.ok r, u')) :
    performWith (fuel + 1) (.poll id c) w = performWith fuel (.poll id c) (u'.counted id) :=
  (poll_of_taken taken).trans (bind_of_ok handed)

end runs

/-- Every poll is a sequence of handovers. -/
theorem exists_polling (id : ResourceId) (c : Callback) (fuel : Nat) (w : World) :
    ∃ handovers, Polling id c fuel w handovers (performWith fuel (.poll id c) w) := by
  induction fuel generalizing w with
  | zero => exact ⟨[], .exhausted w⟩
  | succ fuel ih =>
    cases next : (w.nextItem id).1 with
    | none =>
      rw [poll_of_idle next]
      exact ⟨[], .idle next⟩
    | some v =>
      have taken : w.nextItem id = (some v, (w.nextItem id).2) := Prod.ext next rfl
      rcases handed : (handOver c v).run fuel (w.nextItem id).2 with ⟨i | r, u'⟩
      · rw [poll_of_cut taken handed]
        exact ⟨_, .cut taken handed⟩
      · rw [poll_of_next taken handed]
        obtain ⟨later, rest⟩ := ih (u'.counted id)
        exact ⟨_, .next taken handed rest⟩

/-- A poll goes on until the queue has nothing for its subscribers. -/
theorem Polling.nothing_left {handovers : List Handover} {result : Except Interrupt Value × World}
    (h : Polling id c fuel w handovers result) {a : Value} (ended : result.1 = .ok a) :
    (result.2.nextItem id).1 = none := by
  induction h with
  | exhausted w => cases ended
  | idle h => exact h
  | cut taken handed => cases ended
  | next taken handed rest ih => exact ih ended

/-- When a poll has ended, its callback has been run on everything that it has taken. -/
theorem Polling.passed {handovers : List Handover} {result : Except Interrupt Value × World}
    (h : Polling id c fuel w handovers result) {a : Value} (ended : result.1 = .ok a) :
    ∀ d ∈ handovers, d.PassedTo c := by
  induction h with
  | exhausted w => cases ended
  | idle h => exact List.forall_mem_nil _
  | cut taken handed => cases ended
  | @next fuel w u u' v r later result taken handed rest ih =>
    refine List.forall_mem_cons.mpr ⟨?_, ih ended⟩
    cases fuel with
    | zero => cases handed
    | succ fuel =>
      have left : u' =
          { (deliver c v (performWith fuel) (u.handing v c)).2 with inUse := u.inUse } :=
        (congrArg Prod.snd handed).symm.trans (attempt_world _)
      exact ⟨fuel, _, _, rfl, by rw [left]⟩

theorem isCancelled_handing (taken : w.nextItem id = (some v, u)) (c : Callback)
    (s : SubscriptionId) : (u.handing v c).isCancelled s = w.isCancelled s := by
  apply World.isCancelled_congr
  have same := w.subscriptions_nextItem id
  rw [taken] at same
  exact same

theorem handOver_keeps_cancelled {s : SubscriptionId}
    {r : Except Interrupt (Except EvalError Value)}
    (handed : (handOver c v).run fuel u = (r, w')) (ended : u.isCancelled s) :
    w'.isCancelled s := by
  have routine : Routine (fun _ => True) (handOver c v) := by
    apply Routine.attempt
    apply Routine.holding
    exact .perform (Task.allowed_of_forall (fun _ => trivial) _)
  have kept : u.KeepsCancelled ((handOver c v).run fuel u).2 := cancelled_kept.run routine u
  rw [handed] at kept
  exact kept s ended

/-- A subscription is cancelled at a handover if it was so when the poll began, or when an earlier
handover of the poll was over. -/
theorem Polling.isCancelled_iff {handovers : List Handover}
    {result : Except Interrupt Value × World} (h : Polling id c fuel w handovers result)
    (s : SubscriptionId) {earlier later : List Handover} {d : Handover}
    (split : handovers = earlier ++ d :: later) :
    d.before.isCancelled s ↔ w.isCancelled s ∨ ∃ e ∈ earlier, e.after.isCancelled s := by
  induction h generalizing earlier with
  | exhausted w => cases earlier <;> cases split
  | idle h => cases earlier <;> cases split
  | cut taken handed =>
    cases earlier with
    | nil =>
      cases split
      simp [isCancelled_handing taken]
    | cons e earlier => cases earlier <;> cases split
  | @next fuel w u u' v r _ result taken handed rest ih =>
    cases earlier with
    | nil =>
      cases split
      simp [isCancelled_handing taken]
    | cons e earlier =>
      cases split
      have begun : (u'.counted id).isCancelled s = u'.isCancelled s := World.isCancelled_congr rfl
      rw [ih rfl, begun]
      constructor
      · rintro (ended | ⟨e, he, ended⟩)
        · exact .inr ⟨_, List.mem_cons_self, ended⟩
        · exact .inr ⟨e, List.mem_cons_of_mem _ he, ended⟩
      · rintro (ended | ⟨e, he, ended⟩)
        · left
          apply handOver_keeps_cancelled handed
          rw [← isCancelled_handing taken c s] at ended
          exact ended
        · rcases List.mem_cons.mp he with rfl | he
          · exact .inl ended
          · exact .inr ⟨e, he, ended⟩

end polls

section silent

variable {id : ResourceId} {fuel : Nat} {w : World} {v : Value} {name : String}
  {state : LifecycleState} {b : QueueBackend} {s : SubscriptionId} {user : Callback}

/-- The queue when all its items have been counted as delivered. -/
def QueueBackend.emptied (b : QueueBackend) : QueueBackend :=
  { b with queue := b.queue.clear, delivered := b.delivered + b.queue.items.length }

/-- An item that is handed to a subscription that is cancelled is dropped. -/
theorem handOver_of_cancelled (ended : w.isCancelled s) (user : Callback) (v : Value) (fuel : Nat) :
    (handOver (.guarded s user) v).run (fuel + 1) w = (.ok (.ok .void), w) := by
  let entered := w.handing v (.guarded s user)
  have still : entered.isCancelled s := ended
  have dropped : Eval.perform (.deliver (.guarded s user) v) (performWith (fuel + 1)) entered =
      (.ok .void, entered) := deliver_of_cancelled still user v (performWith fuel)
  have held : holding (v.held ++ Callback.held (.guarded s user))
      (Eval.perform (.deliver (.guarded s user) v)) (performWith (fuel + 1)) w =
      (.ok .void, { entered with inUse := w.inUse }) := holding_of_ran dropped
  simp only [handOver, Eval.run, attempt, held]
  rfl

/-- A poll of a subscription that is cancelled empties the queue and does nothing else. -/
theorem poll_of_cancelled (ended : w.isCancelled s) (user : Callback)
    (found : w.resource? id = some ⟨name, state, .queue b⟩) (unpaused : b.queue.paused = false)
    (enough : b.queue.items.length < fuel) :
    ∃ u, performWith fuel (.poll id (.guarded s user)) w = (.ok .void, u) ∧
      u.resource? id = some ⟨name, state, .queue b.emptied⟩ ∧ u.log = w.log := by
  obtain ⟨⟨items, capacity, paused⟩, subscribers, delivered⟩ := b
  cases unpaused
  induction items generalizing w fuel delivered with
  | nil =>
    obtain ⟨fuel, rfl⟩ := Nat.exists_eq_succ_of_ne_zero (Nat.ne_of_gt enough)
    have nothing : (w.nextItem id).1 = none := by rw [World.nextItem_of_nothing found rfl]
    exact ⟨w, poll_of_idle nothing, found, rfl⟩
  | cons v rest ih =>
    simp only [List.length_cons] at enough
    obtain ⟨fuel, rfl⟩ : ∃ f, fuel = f + 2 := ⟨fuel - 2, by omega⟩
    let left : QueueBackend := { queue := ⟨rest, capacity, false⟩, subscribers, delivered }
    let u := w.putQueue id left
    have taken : w.nextItem id = (some v, u) := World.nextItem_of_queue found rfl
    have still : u.isCancelled s := ended
    have handed := handOver_of_cancelled still user v fuel
    have there : (u.counted id).resource? id =
        some ⟨name, state, .queue { left with delivered := delivered + 1 }⟩ := by
      rw [World.counted, World.resource?_modifyResource, World.resource?_putQueue found]
      rfl
    have still : (u.counted id).isCancelled s := ended
    obtain ⟨u', run, emptied, log⟩ :=
      ih still (delivered + 1) there (Nat.lt_of_succ_lt_succ enough)
    refine ⟨u', (poll_of_next taken handed).trans run, ?_, log⟩
    have count : delivered + 1 + rest.length = delivered + (rest.length + 1) := by omega
    simp only [QueueBackend.emptied, count] at emptied
    exact emptied

end silent

section following

variable {id : ResourceId} {w : World} {name : String} {state : LifecycleState} {b : QueueBackend}

/-- Cancelling a subscription takes its poller away and leaves the items where they are. -/
theorem cancel_of_queue {s : SubscriptionId} (followed : w.followed? s = some (.resource id))
    (found : w.resource? id = some ⟨name, state, .queue b⟩) (perform : Task → Run Value) :
    ∃ u, cancel s perform w = (.ok (), u) ∧ u.isCancelled s ∧
      u.resource? id = some ⟨name, state, .queue
        { b with subscribers := b.subscribers.erase (subscriptionName s) }⟩ := by
  let ended := w.endSubscription s
  have marked : ended.isCancelled s :=
    (World.isCancelled_endSubscription (by simp [followed]) s).mpr (.inl rfl)
  have there : ended.resource? id = some ⟨name, state, .queue b⟩ := by
    simp only [ended, World.endSubscription, followed]
    exact found
  have call := callBackend_of_queue there (.unsubscribe (subscriptionName s)) perform
  refine ⟨ended.putQueue id _, ?_, marked, World.resource?_putQueue there _⟩
  have mark : Eval.modify (fun w => w.endSubscription s) perform w = (.ok (), ended) := rfl
  rw [cancel_eq, world_bind, bind_of_ok mark, followed]
  exact bind_of_ok call

/-- A queue that was never started is started without anything else happening. -/
theorem startIfCreated_of_queue (found : w.resource? id = some ⟨name, state, .queue b⟩)
    (perform : Task → Run Value) : ∃ u state', startIfCreated id perform w = (.ok (), u) ∧
      u.resource? id = some ⟨name, state', .queue b⟩ ∧ u.subscriptions = w.subscriptions := by
  rw [startIfCreated, world_bind]
  by_cases created : state = .created
  · subst created
    have init := callBackend_of_queue found .init perform
    have initialised := World.resource?_putQueue found (b.answer .init).2
    have start := callBackend_of_queue initialised .start perform
    have started := World.resource?_putQueue initialised (b.answer .start).2
    have acted : signalAction id .created .start perform w = (.ok .void, _) :=
      (bind_of_ok init).trans start
    have valid : LifecycleState.created.transition? .start = some .running := rfl
    have signalled := signal_of_valid found valid acted
    have settled := signal_settles found valid acted started
    refine ⟨(signal id .start perform w).2, .running, ?_, settled, ?_⟩
    · simp only [found, Option.any_some, decide_true, if_true]
      rw [signalled]
      exact bind_of_ok signalled
    · rw [signalled]
      rfl
  · refine ⟨w, state, ?_, found, rfl⟩
    simp only [found, Option.any_some, created, decide_false]
    rfl

/-- Subscribing to a queue succeeds; the queue then has a poller for the new subscription. -/
theorem subscribe_of_queue {source : Value} {r : ResourceRef} {user : Callback}
    (resource : source.untagged = .resource r)
    (found : w.resource? r.id = some ⟨name, state, .queue b⟩) (perform : Task → Run Value) :
    ∃ u state', subscribe source user perform w = (.ok w.nextSubscription, u) ∧
      u.followed? w.nextSubscription = some (.resource r.id) ∧
      u.resource? r.id = some ⟨name, state', .queue { b with
        subscribers := b.subscribers.insert (subscriptionName w.nextSubscription)
          (.guarded w.nextSubscription user) }⟩ := by
  let s := w.nextSubscription
  let entered : World := { w.beginSubscription with
    inUse := (source.held ++ user.held) ++ w.beginSubscription.inUse }
  have there : entered.resource? r.id = some ⟨name, state, .queue b⟩ := found
  obtain ⟨u, state', started, running, same⟩ := startIfCreated_of_queue there perform
  have call := callBackend_of_queue running
    (.subscribe (subscriptionName s) (.guarded s user)) perform
  let followed : QueueBackend :=
    { b with subscribers := b.subscribers.insert (subscriptionName s) (.guarded s user) }
  have connected : connect source (subscriptionName s) (.guarded s user) perform entered =
      (.ok (.resource r.id), u.putQueue r.id followed) := by
    simp only [connect, resource]
    rw [bind_of_ok started, bind_of_ok call]
    rfl
  let left : World := { u.putQueue r.id followed with inUse := w.inUse }
  have held : holding (source.held ++ user.held)
      (connect source (subscriptionName s) (.guarded s user)) perform w.beginSubscription =
      (.ok (.resource r.id), left) := holding_of_ran connected
  have began : newSubscription perform w = (.ok s, w.beginSubscription) := rfl
  let kept := left.modifySubscription s fun sub => { sub with target := .resource r.id }
  refine ⟨kept, state', ?_, ?_, World.resource?_putQueue running followed⟩
  · rw [subscribe, bind_of_ok began, bind_of_ok held]
    rfl
  · have fresh : left.subscription? s = some {} := by
      have beginning := w.beginSubscription_subscription? s
      rw [if_pos rfl] at beginning
      rw [← beginning]
      unfold World.subscription?
      rw [show left.subscriptions = w.beginSubscription.subscriptions from same]
    have numbered : s ≠ 0 := Nat.succ_ne_zero _
    have follows : kept.subscription? s = some { target := .resource r.id } := by
      show (left.modifySubscription s _).subscription? s = _
      rw [World.subscription?_modify numbered, if_pos rfl, fresh]
      rfl
    show kept.followed? s = _
    simp only [World.followed?, follows]

end following

theorem deliver_of_live {w : World} {s : SubscriptionId} (live : ¬ w.isCancelled s)
    (user : Callback) (v : Value) (perform : Task → Run Value) :
    deliver (.guarded s user) v perform w = deliver user v perform w := by
  rw [deliver, world_bind, if_neg live]

/-- What a poll has taken is passed to the callback unless the subscription is cancelled at the
handover. -/
theorem Handover.PassedTo.of_guarded {d : Handover} {s : SubscriptionId} {user : Callback}
    (h : d.PassedTo (.guarded s user)) :
    (¬ d.before.isCancelled s → d.PassedTo user) ∧ (d.before.isCancelled s → d.Dropped) := by
  obtain ⟨fuel, result, u, run, left⟩ := h
  constructor
  · intro live
    rw [deliver_of_live live] at run
    exact ⟨fuel, result, u, run, left⟩
  · intro ended
    rw [deliver_of_cancelled ended] at run
    obtain ⟨-, rfl⟩ := Prod.mk.inj run
    exact left

/-- Everything that a poll takes is passed to the callback of its subscription until the
subscription is cancelled: an item is lost exactly if the subscription was cancelled when the poll
began or when an earlier handover was over. As a poll ends only when the queue has nothing more for
its subscribers, it loses all that is left then, and so does a poll that begins later. A
subscription to a queue is a poller of its own, which a cancellation takes away; apart from polls
the items stay where they are. -/
theorem item_lost_iff_cancelled_before (id : ResourceId) (s : SubscriptionId) (user : Callback)
    (fuel : Nat) (w : World) :
    (∃ handovers,
      Polling id (.guarded s user) fuel w handovers
        (performWith fuel (.poll id (.guarded s user)) w) ∧
      (∀ earlier d later, handovers = earlier ++ d :: later →
        (d.before.isCancelled s ↔ w.isCancelled s ∨ ∃ e ∈ earlier, e.after.isCancelled s)) ∧
      ∀ a u, performWith fuel (.poll id (.guarded s user)) w = (.ok a, u) →
        (∀ d ∈ handovers, (¬ d.before.isCancelled s → d.PassedTo user) ∧
          (d.before.isCancelled s → d.Dropped)) ∧
        (u.nextItem id).1 = none) ∧
    ∀ name state b, w.resource? id = some ⟨name, state, .queue b⟩ →
      (w.isCancelled s → b.queue.paused = false → b.queue.items.length < fuel →
        ∃ u, performWith fuel (.poll id (.guarded s user)) w = (.ok .void, u) ∧
          u.resource? id = some ⟨name, state, .queue b.emptied⟩ ∧ u.log = w.log) ∧
      (w.followed? s = some (.resource id) →
        ∃ u, (cancel s).run fuel w = (.ok (), u) ∧ u.isCancelled s ∧
          u.resource? id = some ⟨name, state, .queue
            { b with subscribers := b.subscribers.erase (subscriptionName s) }⟩) ∧
      ∀ source r, source.untagged = .resource r → r.id = id →
        ∃ u state', (subscribe source user).run fuel w = (.ok w.nextSubscription, u) ∧
          u.followed? w.nextSubscription = some (.resource id) ∧
          u.resource? id = some ⟨name, state', .queue { b with
            subscribers := b.subscribers.insert (subscriptionName w.nextSubscription)
              (.guarded w.nextSubscription user) }⟩ := by
  constructor
  · obtain ⟨handovers, polling⟩ := exists_polling id (.guarded s user) fuel w
    refine ⟨handovers, polling, fun earlier d later => polling.isCancelled_iff s, fun a u ran => ?_⟩
    rw [ran] at polling
    exact ⟨fun d hd => (polling.passed rfl d hd).of_guarded, polling.nothing_left rfl⟩
  · intro name state b found
    refine ⟨fun ended => poll_of_cancelled ended user found, ?_, ?_⟩
    · exact fun followed => cancel_of_queue followed found (performWith fuel)
    · rintro source r resource rfl
      exact subscribe_of_queue resource found (performWith fuel)

/-- A queue that two subscriptions have followed, of which the first one is cancelled. -/
def halfFollowed : World where
  resources := #[⟨"q", .running, .queue { queue := ⟨[.int 7], 10, false⟩ }⟩]
  subscriptions := #[{ target := .resource 0, cancelled := true }, { target := .resource 0 }]

/-- The poll of the first subscription drops the item; cancelling the second one leaves it there,
and so does a new subscription. -/
theorem only_poll_drops_item :
    let b : QueueBackend := { queue := ⟨[.int 7], 10, false⟩ }
    let poll := performWith 2 (.poll 0 (.guarded 1 (.program []))) halfFollowed
    (∃ handovers, Polling 0 (.guarded 1 (.program [])) 2 halfFollowed handovers poll ∧
      ∀ d ∈ handovers, d.Dropped) ∧
    (∃ u, poll = (.ok .void, u) ∧ u.resource? 0 = some ⟨"q", .running, .queue b.emptied⟩) ∧
    (∃ u, (cancel 2).run 2 halfFollowed = (.ok (), u) ∧
      u.resource? 0 = some ⟨"q", .running, .queue b⟩) ∧
    ∃ u, (subscribe (.resource ⟨0, "q"⟩) (.program [])).run 2 halfFollowed = (.ok 3, u) ∧
      u.followed? 3 = some (.resource 0) := by
  intro b poll
  have found : halfFollowed.resource? 0 = some ⟨"q", .running, .queue b⟩ := rfl
  have ended : halfFollowed.isCancelled 1 := rfl
  have follows : halfFollowed.followed? 2 = some (.resource 0) := rfl
  obtain ⟨polled, first⟩ := item_lost_iff_cancelled_before 0 1 (.program []) 2 halfFollowed
  obtain ⟨-, second⟩ := item_lost_iff_cancelled_before 0 2 (.program []) 2 halfFollowed
  obtain ⟨lost, -, subscribed⟩ := first _ _ _ found
  obtain ⟨u, ran, emptied, -⟩ := lost ended rfl (by decide)
  obtain ⟨u', cancelled, -, kept⟩ := (second _ _ _ found).2.1 follows
  obtain ⟨u'', _, begun, following, -⟩ := subscribed (.resource ⟨0, "q"⟩) _ rfl rfl
  obtain ⟨handovers, polling, lostFrom, whole⟩ := polled
  refine ⟨⟨handovers, polling, fun d hd => ?_⟩, ⟨u, ran, emptied⟩, ⟨u', cancelled, kept⟩,
    ⟨u'', begun, following⟩⟩
  obtain ⟨earlier, later, split⟩ := List.append_of_mem hd
  exact ((whole _ u ran).1 d hd).2 ((lostFrom earlier d later split).mpr (.inl ended))

/-- A callback that cancels its subscription with the first item. -/
def hearOnce : Callback := .program [.input, .record .delivery "heard", .cancel (.numbered 1)]

/-- Three items wait for the callback, which has just subscribed. -/
def backlog : World :=
  let fresh : World :=
    { resources := #[⟨"q", .created, .queue { queue := ⟨[.int 1, .int 2, .int 3], 10, false⟩ }⟩] }
  ((establish .numbered (.resource ⟨0, "q"⟩) hearOnce).run 1 fresh).2

/-- The callback hears the first item only, but the poll has taken all of them. -/
theorem cancelled_inside_poll_loses_rest :
    let u := (performWith 6 (.poll 0 (.guarded 1 hearOnce)) backlog).2
    (backlog.resource? 0).map (fun r => r.backend.items) = some [.int 1, .int 2, .int 3] ∧
      backlog.isCancelled 1 = false ∧
      (u.resource? 0).map (fun r => r.backend.items) = some [] ∧
      u.log = [.recorded .delivery "heard" (.int 1)] := by
  intro u
  let left : QueueBackend :=
    { queue := ⟨[.int 2, .int 3], 10, false⟩, subscribers := [("sub-1", .guarded 1 hearOnce)] }
  have taken : backlog.nextItem 0 = (some (.int 1), backlog.putQueue 0 left) := rfl
  obtain ⟨r, u₁, handed, heard, ended, there⟩ : ∃ r u₁,
      (handOver (.guarded 1 hearOnce) (.int 1)).run 5 (backlog.putQueue 0 left) = (.ok r, u₁) ∧
      u₁.log = [.recorded .delivery "heard" (.int 1)] ∧ u₁.isCancelled 1 ∧
      (u₁.counted 0).resource? 0 =
        some ⟨"q", .running, .queue { left with subscribers := [], delivered := 1 }⟩ :=
    ⟨_, _, rfl, rfl, rfl, rfl⟩
  -- What is left of the poll is a poll of a cancelled subscription.
  have still : (u₁.counted 0).isCancelled 1 := ended
  have enough : left.queue.items.length < 5 := by decide
  obtain ⟨u₂, rest, emptied, log⟩ := poll_of_cancelled still hearOnce there rfl enough
  have ends : u = u₂ := congrArg Prod.snd ((poll_of_next taken handed).trans rest)
  rw [ends, emptied, log]
  exact ⟨rfl, rfl, rfl, heard⟩

end ReactiveScript
