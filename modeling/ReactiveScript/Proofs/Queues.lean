import ReactiveScript.Proofs.Holdings
import ReactiveScript.Proofs.NestedSignals

/-!
# Queues

What happens to a queue is a sequence of steps: requests of any number of writers and readers, each
answered at some moment, and pollers that take the next item. Items enter a queue at the back and
leave it at the front, whatever it is that makes them leave. So those that have left, in order,
followed by those that are there, are always the ones that were written.
-/

namespace ReactiveScript

/-- A request that waits is answered when it finds room or an item, or when its time is up. -/
def Request.Ready (q : Queue) (expired : Bool) : Request → Prop
  | .write _ true _ => expired ∨ q.items.length < q.capacity
  | .read true _ => expired ∨ q.items ≠ []
  | _ => True

inductive QueueEvent where
  | answered (request : Request) (expired : Bool) (answer : Value)
  /-- A poller asked for the next item. -/
  | polled (item : Option Value)
  | counted

structure QueueStep where
  before : QueueBackend
  event : QueueEvent
  after : QueueBackend

/-- The steps that there are. -/
inductive QueueStep.Legal : QueueStep → Prop where
  | answered (b : QueueBackend) {request : Request} {expired : Bool}
      (ready : request.Ready b.queue expired) :
      Legal ⟨b, .answered request expired (b.answer request).1, (b.answer request).2⟩
  | taken (b : QueueBackend) {v : Value} {queue : Queue} (h : b.queue.take? = some (v, queue)) :
      Legal ⟨b, .polled (some v), { b with queue }⟩
  | missed (b : QueueBackend) (h : b.queue.take? = none) : Legal ⟨b, .polled none, b⟩
  | counted (b : QueueBackend) : Legal ⟨b, .counted, { b with delivered := b.delivered + 1 }⟩

/-- A sequence of steps, whoever makes each of them. -/
inductive Interleaving : QueueBackend → List QueueStep → QueueBackend → Prop where
  | done (b : QueueBackend) : Interleaving b [] b
  | step {s : QueueStep} {steps : List QueueStep} {b : QueueBackend} (h : s.Legal)
      (rest : Interleaving s.after steps b) : Interleaving s.before (s :: steps) b

/-- What becomes of an item that leaves a queue. -/
inductive Fate
  /-- A reader or a poller has got it. -/
  | removed
  | overwritten
  /-- The queue was destroyed. -/
  | cleared
deriving DecidableEq

structure Departure where
  fate : Fate
  item : Value

def Fate.of (fate : Fate) (items : List Value) : List Departure := items.map fun v => ⟨fate, v⟩

@[simp] theorem Fate.items_of (fate : Fate) (items : List Value) :
    (fate.of items).map Departure.item = items := by
  simp [Fate.of, Function.comp_def]

/-- What a write has to drop: the oldest item if the queue is full. -/
def Queue.surplus (q : Queue) : List Value :=
  if q.capacity ≤ q.items.length then q.items.take 1 else []

namespace QueueStep

/-- The items that leave the queue. Those that are removed are the ones in the answer. -/
def departures (s : QueueStep) : List Departure :=
  match s.event with
  | .answered (.read _ true) _ v =>
    Fate.removed.of (if s.before.queue.items.isEmpty then [] else [v])
  | .answered .drain _ (.list items) => Fate.removed.of items
  | .polled (some v) => Fate.removed.of [v]
  | .answered (.write ..) _ _ => Fate.overwritten.of s.before.queue.surplus
  | .answered .destroy _ _ => Fate.cleared.of s.before.queue.items
  | _ => []

def written (s : QueueStep) : List Value :=
  match s.event with
  | .answered (.write v _ _) _ _ => [v]
  | _ => []

/-- Whether the step only looks at the queue. -/
def IsLook (s : QueueStep) : Prop :=
  match s.event with
  | .answered .all _ _ | .answered .size _ _ | .answered (.read _ false) _ _ => True
  | _ => False

end QueueStep

def departures (steps : List QueueStep) : List Departure := steps.flatMap QueueStep.departures

def written (steps : List QueueStep) : List Value := steps.flatMap QueueStep.written

/-- The items that readers and pollers have got, in order. -/
def removed (steps : List QueueStep) : List Value :=
  ((departures steps).filter (·.fate = .removed)).map Departure.item

namespace Queue

variable {q queue : Queue} {v : Value}

theorem surplus_append_write (q : Queue) (v : Value) :
    q.surplus ++ (q.write v).items = q.items ++ [v] := by
  unfold surplus write
  split
  · rw [← List.append_assoc, List.take_append_drop]
  · rfl

theorem items_take? (h : q.take? = some (v, queue)) : q.items = v :: queue.items := by
  unfold take? at h
  split at h
  · cases h
  · split at h
    · cases h
    · next items =>
      cases h
      exact items

theorem capacity_take? (h : q.take? = some (v, queue)) : queue.capacity = q.capacity := by
  unfold take? at h
  split at h
  · cases h
  · split at h <;> cases h
    rfl

theorem read_false (q : Queue) : (q.read false).2 = q := by
  unfold read
  split <;> rfl

theorem read_of_nil (h : q.items = []) (mutating : Bool) : q.read mutating = (.void, q) := by
  simp [read, h]

theorem read_true_of_cons {rest : List Value} (h : q.items = v :: rest) :
    q.read true = (v, { q with items := rest }) := by
  simp [read, h]

theorem capacity_read (q : Queue) (mutating : Bool) :
    (q.read mutating).2.capacity = q.capacity := by
  unfold read
  split
  · rfl
  · cases mutating <;> rfl

end Queue

namespace QueueStep.Legal

variable {s : QueueStep}

/-- What is written comes to the back, and what leaves, leaves from the front. -/
theorem conserves (h : s.Legal) :
    s.departures.map Departure.item ++ s.after.queue.items = s.before.queue.items ++ s.written := by
  cases h with
  | taken b h => simp [departures, QueueStep.written, Queue.items_take? h]
  | missed b h => simp [departures, QueueStep.written]
  | counted b => simp [departures, QueueStep.written]
  | @answered b request expired ready =>
    cases request with
    | write v blocking mutating =>
      have moved := b.queue.surplus_append_write v
      simpa [departures, QueueStep.written, QueueBackend.answer] using moved
    | read blocking mutating =>
      cases mutating with
      | false => simp [departures, QueueStep.written, QueueBackend.answer, Queue.read_false]
      | true =>
        cases items : b.queue.items with
        | nil => simp [departures, QueueStep.written, QueueBackend.answer, items, Queue.read_of_nil]
        | cons v rest =>
          simp [departures, QueueStep.written, QueueBackend.answer, items,
            Queue.read_true_of_cons items]
    | destroy => simp [departures, QueueStep.written, QueueBackend.answer, Queue.clear]
    | drain => simp [departures, QueueStep.written, QueueBackend.answer, Queue.drain]
    | _ => simp [departures, QueueStep.written, QueueBackend.answer, Queue.pause, Queue.unpause]

theorem capacity_eq (h : s.Legal) : s.after.queue.capacity = s.before.queue.capacity := by
  cases h with
  | taken b h => exact Queue.capacity_take? h
  | missed => rfl
  | counted => rfl
  | @answered b request expired ready =>
    cases request with
    | write v => exact Queue.capacity_write b.queue v
    | read _ mutating => exact Queue.capacity_read b.queue mutating
    | _ => rfl

theorem after_of_look (h : s.Legal) (look : s.IsLook) : s.after = s.before := by
  cases h with
  | missed => rfl
  | taken => cases look
  | counted => cases look
  | @answered b request expired ready =>
    cases request with
    | all => rfl
    | size => rfl
    | read blocking mutating =>
      cases mutating with
      | false =>
        show { b with queue := (b.queue.read false).2 } = b
        rw [Queue.read_false]
      | true => cases look
    | _ => cases look

/-- Only a write to a full queue overwrites, and what it overwrites is the oldest item. -/
theorem full_of_overwritten (h : s.Legal) {d : Departure} (hd : d ∈ s.departures)
    (overwritten : d.fate = .overwritten) :
    s.before.queue.capacity ≤ s.before.queue.items.length ∧
      s.before.queue.items.head? = some d.item := by
  have other {fate : Fate} {items : List Value} (hf : fate ≠ .overwritten) : d ∉ fate.of items := by
    intro hd
    obtain ⟨v, -, rfl⟩ := List.mem_map.mp hd
    exact hf overwritten
  cases h with
  | taken => exact absurd hd (other nofun)
  | missed => cases hd
  | counted => cases hd
  | @answered b request expired ready =>
    cases request with
    | write v blocking mutating =>
      obtain ⟨oldest, ho, rfl⟩ := List.mem_map.mp hd
      simp only [Queue.surplus] at ho
      split at ho
      · next full =>
        refine ⟨full, ?_⟩
        cases items : b.queue.items with
        | nil => simp [items] at ho
        | cons v rest => simpa [items, eq_comm] using ho
      · cases ho
    | read blocking mutating =>
      cases mutating with
      | false => cases hd
      | true => exact absurd hd (other nofun)
    | drain => exact absurd hd (other nofun)
    | destroy => exact absurd hd (other nofun)
    | _ => cases hd

/-- A write that waited and found room drops nothing. -/
theorem departures_of_waited (h : s.Legal) {v answer : Value} {mutating : Bool}
    (waited : s.event = .answered (.write v true mutating) false answer) : s.departures = [] := by
  cases h with
  | taken => cases waited
  | missed => cases waited
  | counted => cases waited
  | answered b ready =>
    cases waited
    rcases ready with expired | room
    · cases expired
    · simp [departures, Queue.surplus, Fate.of, Nat.not_le_of_lt room]

end QueueStep.Legal

/-- The queue has a capacity and holds no more items than that. -/
structure QueueBackend.Within (capacity : Nat) (b : QueueBackend) : Prop where
  capacity_eq : b.queue.capacity = capacity
  bounded : b.queue.items.length ≤ capacity

theorem QueueStep.Legal.within {s : QueueStep} (h : s.Legal) {capacity : Nat} (pos : 0 < capacity)
    (within : s.before.Within capacity) : s.after.Within capacity := by
  refine ⟨h.capacity_eq.trans within.capacity_eq, ?_⟩
  have bounded := within.bounded
  have conserves := congrArg List.length h.conserves
  simp only [List.length_append, List.length_map] at conserves
  -- Only a write adds an item, and it makes room for it.
  by_cases quiet : s.written = []
  · rw [quiet, List.length_nil] at conserves
    omega
  · cases h with
    | @answered b request expired ready =>
      cases request with
      | write v blocking mutating =>
        have full := b.queue.length_write_le v
        rw [within.capacity_eq] at full
        exact full pos bounded
      | _ => exact absurd rfl quiet
    | _ => exact absurd rfl quiet

namespace Interleaving

variable {b b' b'' : QueueBackend} {steps steps' : List QueueStep}

theorem single {s : QueueStep} (h : s.Legal) : Interleaving s.before [s] s.after :=
  .step h (.done _)

theorem append (h : Interleaving b steps b') (h' : Interleaving b' steps' b'') :
    Interleaving b (steps ++ steps') b'' := by
  induction h with
  | done => exact h'
  | step hs _ ih => exact .step hs (ih h')

theorem legal (h : Interleaving b steps b') : ∀ s ∈ steps, s.Legal := by
  induction h with
  | done => exact List.forall_mem_nil _
  | step hs _ ih => exact List.forall_mem_cons.mpr ⟨hs, ih⟩

/-- What has left a queue and what is in it is what was in it and what has been written. -/
theorem conserves (h : Interleaving b steps b') :
    (departures steps).map Departure.item ++ b'.queue.items = b.queue.items ++ written steps := by
  induction h with
  | done => simp [departures, written]
  | @step s steps b' hs rest ih =>
    calc
      _ = s.departures.map Departure.item ++
          ((departures steps).map Departure.item ++ b'.queue.items) := by simp [departures]
      _ = (s.departures.map Departure.item ++ s.after.queue.items) ++ written steps := by
        rw [ih, List.append_assoc]
      _ = _ := by
        rw [hs.conserves]
        simp [written]

theorem within {capacity : Nat} (h : Interleaving b steps b') (pos : 0 < capacity)
    (start : b.Within capacity) :
    (∀ s ∈ steps, s.before.Within capacity ∧ s.after.Within capacity) ∧ b'.Within capacity := by
  induction h with
  | done => exact ⟨List.forall_mem_nil _, start⟩
  | step hs _ ih =>
    have next := hs.within pos start
    obtain ⟨each, last⟩ := ih next
    exact ⟨List.forall_mem_cons.mpr ⟨⟨start, next⟩, each⟩, last⟩

end Interleaving

/-- What has been removed has left in the same order. -/
theorem removed_sublist (steps : List QueueStep) :
    (removed steps).Sublist ((departures steps).map Departure.item) :=
  List.filter_sublist.map _

section engine

variable {w w' : World} {id : ResourceId} {name : String} {state : LifecycleState}
  {b : QueueBackend}

namespace World

def putQueue (w : World) (id : ResourceId) (b : QueueBackend) : World :=
  w.modifyResource id fun r => { r with backend := .queue b }

theorem resource?_putQueue (found : w.resource? id = some ⟨name, state, .queue b⟩)
    (b' : QueueBackend) :
    (w.putQueue id b').resource? id = some ⟨name, state, .queue b'⟩ := by
  rw [putQueue, resource?_modifyResource, found]
  rfl

/-- What a queue has next for its subscribers, and the world without it. -/
def nextItem (w : World) (id : ResourceId) : Option Value × World :=
  match w.resource? id with
  | some ⟨_, _, .queue b⟩ =>
    match b.queue.take? with
    | some (v, queue) => (some v, w.putQueue id { b with queue })
    | none => (none, w)
  | _ => (none, w)

theorem nextItem_of_queue (found : w.resource? id = some ⟨name, state, .queue b⟩) {v : Value}
    {queue : Queue} (taken : b.queue.take? = some (v, queue)) :
    w.nextItem id = (some v, w.putQueue id { b with queue }) := by
  simp only [nextItem, found, taken]

theorem nextItem_of_nothing (found : w.resource? id = some ⟨name, state, .queue b⟩)
    (nothing : b.queue.take? = none) : w.nextItem id = (none, w) := by
  simp only [nextItem, found, nothing]

theorem subscriptions_nextItem (w : World) (id : ResourceId) :
    (w.nextItem id).2.subscriptions = w.subscriptions := by
  unfold nextItem
  split
  · split <;> rfl
  · rfl

end World

theorem Eval.takeItem_apply (id : ResourceId) (perform : Task → Run Value) (w : World) :
    takeItem id perform w = (.ok (w.nextItem id).1, (w.nextItem id).2) := rfl

/-- A request to a queue is answered in one step. -/
theorem Eval.callBackend_of_queue (found : w.resource? id = some ⟨name, state, .queue b⟩)
    (request : Request) (perform : Task → Run Value) :
    callBackend id request perform w =
      (.ok (b.answer request).1, w.putQueue id (b.answer request).2) := by
  rw [callBackend, world_bind]
  simp only [found, answerRequest, modifyGet, Backend.answer]
  rfl

/-- Every queue of a world is taken along an interleaving. -/
def World.StepsQueues (w w' : World) : Prop :=
  ∀ id name state b, w.resource? id = some ⟨name, state, .queue b⟩ → ∃ steps b' state',
    Interleaving b steps b' ∧ w'.resource? id = some ⟨name, state', .queue b'⟩

namespace World.StepsQueues

theorem of_same (same : w'.resources = w.resources) : w.StepsQueues w' := by
  intro id name state b found
  refine ⟨[], b, state, .done b, ?_⟩
  unfold World.resource? at found ⊢
  rw [same, found]

theorem trans {w'' : World} (h : w.StepsQueues w') (h' : w'.StepsQueues w'') :
    w.StepsQueues w'' := by
  intro id name state b found
  obtain ⟨steps, b', state', first, found'⟩ := h id name state b found
  obtain ⟨steps', b'', state'', second, found''⟩ := h' id name state' b' found'
  exact ⟨steps ++ steps', b'', state'', first.append second, found''⟩

/-- A change to one resource, which makes one step if the resource is a queue. -/
theorem of_modify {f : Resource → Resource}
    (h : ∀ name state b, w.resource? id = some ⟨name, state, .queue b⟩ → ∃ steps b' state',
      Interleaving b steps b' ∧ f ⟨name, state, .queue b⟩ = ⟨name, state', .queue b'⟩) :
    w.StepsQueues (w.modifyResource id f) := by
  intro id' name state b found
  by_cases same : id' = id
  · subst same
    obtain ⟨steps, b', state', path, leads⟩ := h name state b found
    refine ⟨steps, b', state', path, ?_⟩
    rw [World.resource?_modifyResource, found, Option.map_some, leads]
  · refine ⟨[], b, state, .done b, ?_⟩
    rw [World.resource?_modifyResource_of_ne w f same]
    exact found

theorem of_change {p : Action → Prop} (h : Change p w w') : w.StepsQueues w' := by
  cases h with
  | @answer id r request found allowed =>
    refine of_modify fun name state b here => ?_
    obtain rfl := Option.some.inj (found.symm.trans here)
    -- Nobody else runs meanwhile, so a request that waits is answered when its time is up.
    have ready : request.Ready b.queue true := by
      cases request with
      | read blocking _ => cases blocking <;> simp [Request.Ready]
      | write _ blocking _ => cases blocking <;> simp [Request.Ready]
      | _ => trivial
    exact ⟨_, _, state, .single (.answered b ready), rfl⟩
  | settle id start target succeeded =>
    exact of_modify fun name state b _ => ⟨[], b, _, .done b, rfl⟩
  | @takeItem id name state b v queue found taken =>
    refine of_modify fun name state b here => ?_
    obtain ⟨-, -, same⟩ := Resource.mk.inj (Option.some.inj (found.symm.trans here))
    cases same
    exact ⟨_, _, state, .single (.taken b taken), rfl⟩
  | countDelivery id =>
    exact of_modify fun name state b _ => ⟨_, _, state, .single (.counted b), rfl⟩
  | report severity message fields =>
    apply of_same
    unfold World.report
    split <;> rfl
  | _ => exact of_same rfl

end World.StepsQueues

/-- Nothing happens to queues but steps. -/
theorem queues_stepped : Tracks (fun _ => True) World.StepsQueues where
  still same := .of_same same.resources
  trans := .trans
  change := .of_change

end engine

/-- A queue is first in, first out and bounded, whoever uses it. The items that have left, in order,
followed by those that are there, are the ones that were written, so that each written item has one
fate. Those that readers and pollers have got are a part of them in the order of writing; an item is
overwritten only as the oldest one of a full queue, and a write that has waited for room finds it.
Looking at the queue leaves it as it is. Wherever the queue is in a world, requests and pollers make
these steps, and no evaluation makes others. -/
theorem first_in_first_out {capacity : Nat} {b b' : QueueBackend} {steps : List QueueStep}
    (new : b.queue = Queue.ofCapacity capacity) (h : Interleaving b steps b') :
    (∀ s ∈ steps, s.before.queue.items.length ≤ max capacity 1 ∧
      s.after.queue.items.length ≤ max capacity 1) ∧
    b'.queue.items.length ≤ max capacity 1 ∧
    (departures steps).map Departure.item ++ b'.queue.items = written steps ∧
    (removed steps).Sublist (written steps) ∧
    (∀ s ∈ steps,
      (∀ d ∈ s.departures, d.fate = .overwritten →
        s.before.queue.items.length = max capacity 1 ∧
          s.before.queue.items.head? = some d.item) ∧
      (∀ v mutating answer, s.event = .answered (.write v true mutating) false answer →
        s.departures = []) ∧
      (s.IsLook → s.after = s.before)) ∧
    ∀ (w : World) (id : ResourceId) (name : String) (state : LifecycleState),
      w.resource? id = some ⟨name, state, .queue b'⟩ →
      (∀ request perform, Eval.callBackend id request perform w =
        (.ok (b'.answer request).1, w.putQueue id (b'.answer request).2)) ∧
      (∀ v queue perform, b'.queue.take? = some (v, queue) →
        Eval.takeItem id perform w = (.ok (some v), w.putQueue id { b' with queue })) ∧
      (∀ perform, b'.queue.take? = none → Eval.takeItem id perform w = (.ok none, w)) ∧
      ∀ (α : Type) (x : Eval α) (fuel : Nat), Eval.Routine (fun _ => True) x →
        ∃ later b'' state', Interleaving b' later b'' ∧
          (x.run fuel w).2.resource? id = some ⟨name, state', .queue b''⟩ := by
  have start : b.Within (max capacity 1) := by
    constructor
    · rw [new]
      rfl
    · rw [new]
      exact Nat.zero_le _
  have pos : 0 < max capacity 1 := by omega
  obtain ⟨each, last⟩ := h.within pos start
  have conserves : (departures steps).map Departure.item ++ b'.queue.items = written steps := by
    have kept := h.conserves
    rw [new] at kept
    exact kept
  refine ⟨fun s hs => ⟨(each s hs).1.bounded, (each s hs).2.bounded⟩, last.bounded, conserves, ?_,
    fun s hs => ?_, fun w id name state found => ⟨?_, ?_, ?_, ?_⟩⟩
  · rw [← conserves]
    exact (removed_sublist steps).trans (List.sublist_append_left _ _)
  · have legal := h.legal s hs
    have within := (each s hs).1
    refine ⟨fun d hd overwritten => ?_, fun v mutating answer => legal.departures_of_waited,
      legal.after_of_look⟩
    obtain ⟨full, oldest⟩ := legal.full_of_overwritten hd overwritten
    rw [within.capacity_eq] at full
    exact ⟨Nat.le_antisymm within.bounded full, oldest⟩
  · exact Eval.callBackend_of_queue found
  · intro v queue perform taken
    rw [Eval.takeItem_apply, World.nextItem_of_queue found taken]
  · intro perform nothing
    rw [Eval.takeItem_apply, World.nextItem_of_nothing found nothing]
  · intro α x fuel hx
    exact queues_stepped.run hx w id name state b' found

/-- A queue that has room for one item, with the callbacks of nobody. -/
def singleItem (items : List Value) : QueueBackend := { queue := ⟨items, 1, false⟩ }

/-- A second write waits in vain and overwrites the first item; a poller gets the second one. -/
theorem late_write_overwrites :
    let steps : List QueueStep :=
      [⟨singleItem [], .answered (.write (.int 1) false true) false (.int 1), singleItem [.int 1]⟩,
        ⟨singleItem [.int 1], .answered (.write (.int 2) true true) true (.int 2),
          singleItem [.int 2]⟩,
        ⟨singleItem [.int 2], .polled (some (.int 2)), singleItem []⟩]
    let w : World := { resources := #[⟨"q", .running, .queue (singleItem [])⟩] }
    (singleItem []).queue = Queue.ofCapacity 0 ∧
      Interleaving (singleItem []) steps (singleItem []) ∧
      (departures steps).map Departure.item = [.int 1, .int 2] ∧
      removed steps = [.int 2] ∧ [Value.int 2].Sublist (written steps) ∧
      ∃ later b state, Interleaving (singleItem []) later b ∧
        ((Eval.perform (.signal 0 .destroy)).run 1 w).2.resource? 0 =
          some ⟨"q", state, .queue b⟩ := by
  intro steps w
  have new : (singleItem []).queue = Queue.ofCapacity 0 := rfl
  have room : Request.Ready (singleItem []).queue false (.write (.int 1) false true) := trivial
  have late : Request.Ready (singleItem [.int 1]).queue true (.write (.int 2) true true) :=
    Or.inl rfl
  have path : Interleaving (singleItem []) steps (singleItem []) := by
    apply Interleaving.step (.answered (singleItem []) room)
    apply Interleaving.step (.answered (singleItem [.int 1]) late)
    exact .step (.taken (singleItem [.int 2]) rfl) (.done _)
  have found : w.resource? 0 = some ⟨"q", .running, .queue (singleItem [])⟩ := rfl
  obtain ⟨-, -, conserves, sublist, -, engine⟩ := first_in_first_out new path
  obtain ⟨-, -, -, runs⟩ := engine w 0 "q" .running found
  exact ⟨new, path, (List.append_nil _).symm.trans conserves, rfl, sublist,
    runs Value _ 1 (.perform trivial)⟩

end ReactiveScript
