import ReactiveScript.Proofs.Executions
import ReactiveScript.Proofs.Listening
import ReactiveScript.Proofs.Termination

/-!
# How a change spreads

A notification executes its node and calls the listeners of the node in order, and a listener that
is a relay notifies its node in turn. If executions and other listeners do not notify, this tells
all listeners that are called, with the way on which the notification has come to each of them.
-/

namespace ReactiveScript

open Eval

/-- A task ends with a value and notifies nothing. -/
def EndsSilently (t : Task) (w : World) (v : Value) (w' : World) : Prop :=
  ∃ fuel, performWith fuel t w = (.ok v, w') ∧ Silent fuel t w

namespace EndsSilently

variable {t : Task} {w w₁ w₂ : World} {u v : Value}

theorem ends (h : EndsSilently t w v w₁) : (perform t).Ends w (.ok v) w₁ := by
  obtain ⟨fuel, run, -⟩ := h
  exact ⟨fuel, run⟩

theorem unique (h : EndsSilently t w u w₁) (h' : EndsSilently t w v w₂) : u = v ∧ w₁ = w₂ := by
  have asked : t.Allowed fun _ => True := t.allowed_of_forall fun _ => trivial
  obtain ⟨same, rfl⟩ := h.ends.unique (.perform asked) h'.ends
  cases same
  exact ⟨rfl, rfl⟩

theorem marks_eq (h : EndsSilently t w v w₁) : w₁.marks = w.marks := by
  obtain ⟨fuel, run, silent⟩ := h
  have notifying := silent.notifying_eq
  rw [run] at notifying
  exact congrArg List.toFinset notifying

/-- A relay of a node that exists is not silent. -/
theorem not_relay {m : NodeId} (held : w.isHeld (.node m)) :
    ¬ EndsSilently (.deliver (.relay m) u) w v w₁ := by
  rintro ⟨fuel, run, silent⟩
  cases fuel with
  | zero => cases run
  | succ fuel =>
    have answered := silent fun _ w => (.error .exhausted, w)
    have gaveUp : (performAnswering (fun _ w => (.error .exhausted, w)) (fuel + 1)
        (.deliver (.relay m) u) w).1 = .error .exhausted := by
      show (Eval.deliver (.relay m) u _ w).1 = _
      rw [Eval.deliver, bind_of_ok (show Eval.world _ w = (.ok w, w) from rfl), if_pos held]
      cases fuel <;> rfl
    rw [answered, run] at gaveUp
    cases gaveUp

end EndsSilently

/-- A world in which something is held besides. -/
def World.using (w : World) (held : List Held) : World := { w with inUse := held ++ w.inUse }

/-- A call of a listener, with the nodes that have been notified on the way, the node of the
listener being the last one. -/
structure Arrival where
  path : List NodeId
  listener : Registration

/-- What is under way: the notification of a node, or the delivery of its value to what is left of
its listeners. -/
inductive Stage where
  | notifying (id : NodeId)
  | delivering (id : NodeId) (v : Value) (entries : OrderedMap Callback)

/-- The stage ends without an error. -/
def Stage.EndsIn : Stage → World → World → Prop
  | notifying id, w, w' => ∃ v, (perform (.notify id)).Ends w (.ok v) w'
  | delivering _ v entries, w, w' => (deliverAll v entries.values).Ends w (.ok ()) w'

/-- The listeners that are called, in order, from a stage on to which there has been a path. Nothing
else in between notifies. -/
inductive Spreads : List NodeId → Stage → World → List Arrival → World → Prop where
  | skipped {path id w} (marked : w.context.isNotifying id) :
      Spreads path (.notifying id) w [] (w.refuseNotify id)
  | announced {path id w v w₁ arrivals w₂} (free : ¬ w.context.isNotifying id)
      (executed : EndsSilently (.resolve id 1 w.settings.parallel) (w.enterNotify id) v w₁)
      (delivered : Spreads path (.delivering id v (w₁.listeners id).entries) w₁ arrivals w₂) :
      Spreads path (.notifying id) w arrivals (w₂.leaveNotify id)
  | done {path id v w} : Spreads path (.delivering id v []) w [] w
  | called {path id v key callback rest w u w₁ arrivals w₂}
      (call : EndsSilently (.deliver callback v)
        (w.using (v.held ++ heldByCallbacks (callback :: OrderedMap.values rest))) u w₁)
      (later : Spreads path (.delivering id v rest) { w₁ with inUse := w.inUse } arrivals w₂) :
      Spreads path (.delivering id v ((key, callback) :: rest)) w
        (⟨path, ⟨id, key, callback⟩⟩ :: arrivals) w₂
  | relayed {path id v key m rest w first w₁ arrivals w₂}
      (held : (w.using (v.held ++ heldByCallbacks (.relay m :: OrderedMap.values rest))).isHeld
        (.node m))
      (relay : Spreads (path ++ [m]) (.notifying m)
        ((w.using (v.held ++ heldByCallbacks (.relay m :: OrderedMap.values rest))).using
          [.node m]) first w₁)
      (later : Spreads path (.delivering id v rest) { w₁ with inUse := w.inUse } arrivals w₂) :
      Spreads path (.delivering id v ((key, .relay m) :: rest)) w
        (⟨path, ⟨id, key, .relay m⟩⟩ :: (first ++ arrivals)) w₂

namespace Spreads

variable {path : List NodeId} {stage : Stage} {w w₁ w₂ : World} {arrivals arrivals' : List Arrival}

/-- Which listeners are called is told by the run. -/
theorem unique (h : Spreads path stage w arrivals w₁) (h' : Spreads path stage w arrivals' w₂) :
    arrivals = arrivals' ∧ w₁ = w₂ := by
  induction h generalizing arrivals' w₂ with
  | skipped marked =>
    cases h' with
    | skipped => exact ⟨rfl, rfl⟩
    | announced free => exact absurd marked free
  | announced free executed _ ih =>
    cases h' with
    | skipped marked => exact absurd marked free
    | announced _ executed' delivered =>
      obtain ⟨rfl, rfl⟩ := executed.unique executed'
      obtain ⟨rfl, rfl⟩ := ih delivered
      exact ⟨rfl, rfl⟩
  | done =>
    cases h'
    exact ⟨rfl, rfl⟩
  | called call _ ih =>
    cases h' with
    | called call' later =>
      obtain ⟨-, rfl⟩ := call.unique call'
      obtain ⟨rfl, rfl⟩ := ih later
      exact ⟨rfl, rfl⟩
    | relayed held => exact absurd call (EndsSilently.not_relay held)
  | relayed held _ _ ih ih' =>
    cases h' with
    | called call => exact absurd call (EndsSilently.not_relay held)
    | relayed _ relay later =>
      obtain ⟨rfl, rfl⟩ := ih relay
      obtain ⟨rfl, rfl⟩ := ih' later
      exact ⟨rfl, rfl⟩

theorem ends (h : Spreads path stage w arrivals w₁) : stage.EndsIn w w₁ := by
  have everything (c : Callback) : c.Allowed fun _ => True := c.allowed_of_forall fun _ => trivial
  have goes {v : Value} {callback : Callback} {rest : OrderedMap Callback} {w w₁ w₂ : World}
      {u : Value} (call : (perform (.deliver callback v)).Ends
        (w.using (v.held ++ heldByCallbacks (callback :: rest.values))) (.ok u) w₁)
      (later : (deliverAll v rest.values).Ends { w₁ with inUse := w.inUse } (.ok ()) w₂) :
      (deliverAll v (callback :: rest.values)).Ends w (.ok ()) w₂ := by
    have asked : (Task.deliver callback v).Allowed fun _ => True := everything callback
    exact .bind (Routine.holding _ (.perform asked))
      (fun _ => (Protocol.deliverAll v fun c _ => everything c).routine) (.holding _ call) later
  induction h with
  | @skipped path id w marked =>
    exact ⟨.void, .perform (.of_apply fun _ => whileNotifying_of_marked marked _)⟩
  | @announced path id w v w₁ arrivals w₂ free executed _ ih =>
    refine ⟨v, .perform (.whileNotifying free ?_)⟩
    have executed : (perform (.resolve id 1 (w.enterNotify id).settings.parallel)).Ends
        (w.enterNotify id) (.ok v) w₁ := executed.ends
    have called : (deliverAll v (w₁.listenersOf id)).Ends w₁ (.ok ()) w₂ := by
      rw [World.listenersOf_eq]
      exact ih
    exact announce_ends executed called
  | done => exact .pure () _
  | called call _ ih => exact goes call.ends ih
  | @relayed path id v key m rest w first w₁ arrivals w₂ held _ _ ih ih' =>
    obtain ⟨u, notified⟩ := ih
    let u₁ := w.using (v.held ++ heldByCallbacks (.relay m :: OrderedMap.values rest))
    have call : (deliver (.relay m) v).Ends u₁ (.ok u) { w₁ with inUse := u₁.inUse } := by
      refine .look ?_
      rw [if_pos held]
      exact .holding _ notified
    exact goes (.perform call) ih'

end Spreads

/-- A path on which nodes relay to each other, from a node to another one. -/
inductive World.RelayPath (w : World) (nodes : Finset NodeId) :
    NodeId → List NodeId → NodeId → Prop where
  | here (a : NodeId) : RelayPath w nodes a [a] a
  | relay {a x d : NodeId} {path : List NodeId} (feeds : w.Feeds nodes a x)
      (rest : RelayPath w nodes x path d) : RelayPath w nodes a (a :: path) d

theorem World.RelayPath.exists_cons {w : World} {nodes : Finset NodeId} {a d : NodeId}
    {path : List NodeId} (h : w.RelayPath nodes a path d) : ∃ rest, path = a :: rest := by
  cases h with
  | here => exact ⟨_, rfl⟩
  | relay => exact ⟨_, rfl⟩

/-- The bodies of the nodes of a graph and the callbacks that were given neither raise an error nor
notify nor listen, and the nodes go on to exist. `during` is what holds throughout: it does not
depend on marks, on what is in use or on the log. -/
structure Inert (nodes : Finset NodeId) (given : List Registration) (base : World)
    (during : World → Prop) : Prop where
  start : during base
  quiet : ∀ {w w' : World}, during w → w'.quiet = w.quiet → during w'
  listeners : ∀ {w}, during w → ∀ x ∈ nodes, (w.listeners x).entries = (base.listeners x).entries
  held : ∀ {w}, during w → ∀ x ∈ nodes, w.isHeld (.node x)
  executes : ∀ {w}, during w → ∀ x ∈ nodes,
    ∃ v w', EndsSilently (.resolve x 1 w.settings.parallel) w v w' ∧ during w'
  /-- A callback is harmless whenever it is given a result of its node. -/
  calls : ∀ {w}, during w → ∀ r ∈ given, ∀ u v u', during u →
    EndsSilently (.resolve r.node 1 u.settings.parallel) u v u' →
    ∃ result w', EndsSilently (.deliver r.callback v) w result w' ∧ during w'

/-- The call is due when a notification has come to a node: it goes on from there on a path. -/
def World.Due (w : World) (nodes : Finset NodeId) (before : List NodeId) (x : NodeId)
    (call : Arrival) : Prop :=
  ∃ path, call.path = before ++ path ∧ w.RelayPath nodes x path call.listener.node ∧
    w.Lists call.listener

namespace World.Due

variable {w : World} {nodes : Finset NodeId} {before : List NodeId} {x y : NodeId} {call : Arrival}

theorem exists_rest (h : w.Due nodes before x call) : ∃ rest, call.path = before ++ x :: rest := by
  obtain ⟨path, he, way, -⟩ := h
  obtain ⟨rest, rfl⟩ := way.exists_cons
  exact ⟨rest, he⟩

theorem path_ne (h : w.Due nodes before x call) : call.path ≠ before := by
  obtain ⟨rest, he⟩ := h.exists_rest
  rw [he]
  exact fun h => List.cons_ne_nil x rest (List.append_right_eq_self.mp h)

theorem node_unique (h : w.Due nodes before x call) (h' : w.Due nodes before y call) : x = y := by
  obtain ⟨rest, he⟩ := h.exists_rest
  obtain ⟨rest', he'⟩ := h'.exists_rest
  exact (List.cons.inj (List.append_cancel_left (he.symm.trans he'))).1

/-- A call is due at the node itself, or at a node that it relays to. -/
theorem iff_here_or_relayed : w.Due nodes before x call ↔
    (call.path = before ++ [x] ∧ call.listener.node = x ∧
      (call.listener.key, call.listener.callback) ∈ (w.listeners x).entries) ∨
    ∃ y, w.Feeds nodes x y ∧ w.Due nodes (before ++ [x]) y call := by
  constructor
  · rintro ⟨path, he, way, lists⟩
    obtain ⟨called, ⟨node, key, callback⟩⟩ := call
    cases way with
    | here => exact .inl ⟨he, rfl, lists⟩
    | relay feeds rest =>
      refine .inr ⟨_, feeds, _, ?_, rest, lists⟩
      rw [he, List.append_assoc]
      rfl
  · rintro (⟨he, rfl, lists⟩ | ⟨y, feeds, path, he, way, lists⟩)
    · exact ⟨_, he, .here _, lists⟩
    · refine ⟨x :: path, ?_, .relay feeds way, lists⟩
      rw [he, List.append_assoc]
      rfl

end World.Due

section spread

variable {nodes : Finset NodeId} {given : List Registration} {base : World}
  {during : World → Prop} {before : List NodeId} {x y : NodeId}

/-- A notification of a node spreads just as it should, if nothing downstream is marked. -/
def SpreadsFully (nodes : Finset NodeId) (base : World) (during : World → Prop) (x : NodeId) :
    Prop :=
  ∀ before w, during w → (∀ y, Relation.ReflTransGen (base.HasInput nodes) x y → y ∉ w.marks) →
    ∃ arrivals w', Spreads (before ++ [x]) (.notifying x) w arrivals w' ∧ during w' ∧
      w'.marks = w.marks ∧ arrivals.Nodup ∧ ∀ call, call ∈ arrivals ↔ base.Due nodes before x call

/-- The call is due when a result of a node is delivered to some of its listeners. -/
def DueAmong (base : World) (nodes : Finset NodeId) (before : List NodeId) (x : NodeId)
    (entries : OrderedMap Callback) (call : Arrival) : Prop :=
  (call.path = before ++ [x] ∧ call.listener.node = x ∧
    (call.listener.key, call.listener.callback) ∈ entries) ∨
  ∃ y, (Node.relayKey y, .relay y) ∈ entries ∧ base.Due nodes (before ++ [x]) y call

/-- A call of a listener is not due among other listeners. -/
theorem not_dueAmong_rest {key : String} {callback : Callback} {rest : OrderedMap Callback}
    (fresh : key ∉ rest.keys) :
    ¬ DueAmong base nodes before x rest ⟨before ++ [x], x, key, callback⟩ := by
  rintro (⟨-, -, listed⟩ | ⟨y, -, due⟩)
  · exact fresh (OrderedMap.mem_keys listed)
  · exact due.path_ne rfl

theorem dueAmong_cons_of_ne {key : String} {callback : Callback} {rest : OrderedMap Callback}
    (other : ∀ y, key ≠ Node.relayKey y) (call : Arrival) :
    DueAmong base nodes before x ((key, callback) :: rest) call ↔
      call = ⟨before ++ [x], x, key, callback⟩ ∨ DueAmong base nodes before x rest call := by
  obtain ⟨path, node, key', callback'⟩ := call
  simp only [DueAmong, List.mem_cons, Prod.mk.injEq, Arrival.mk.injEq, Registration.mk.injEq]
  constructor
  · rintro (⟨rfl, rfl, ⟨rfl, rfl⟩ | listed⟩ | ⟨y, ⟨rfl, -⟩ | listed, due⟩)
    · exact .inl ⟨rfl, rfl, rfl, rfl⟩
    · exact .inr (.inl ⟨rfl, rfl, listed⟩)
    · exact absurd rfl (other y)
    · exact .inr (.inr ⟨y, listed, due⟩)
  · rintro (⟨rfl, rfl, rfl, rfl⟩ | ⟨rfl, rfl, listed⟩ | ⟨y, listed, due⟩)
    · exact .inl ⟨rfl, rfl, .inl ⟨rfl, rfl⟩⟩
    · exact .inl ⟨rfl, rfl, .inr listed⟩
    · exact .inr ⟨y, .inr listed, due⟩

theorem dueAmong_cons_relay {rest : OrderedMap Callback} (call : Arrival) :
    DueAmong base nodes before x ((Node.relayKey y, .relay y) :: rest) call ↔
      call = ⟨before ++ [x], x, Node.relayKey y, .relay y⟩ ∨
        base.Due nodes (before ++ [x]) y call ∨ DueAmong base nodes before x rest call := by
  obtain ⟨path, node, key', callback'⟩ := call
  simp only [DueAmong, List.mem_cons, Prod.mk.injEq, Arrival.mk.injEq, Registration.mk.injEq]
  constructor
  · rintro (⟨rfl, rfl, ⟨rfl, rfl⟩ | listed⟩ | ⟨z, ⟨same, -⟩ | listed, due⟩)
    · exact .inl ⟨rfl, rfl, rfl, rfl⟩
    · exact .inr (.inr (.inl ⟨rfl, rfl, listed⟩))
    · cases Node.relayKey_injective same
      exact .inr (.inl due)
    · exact .inr (.inr (.inr ⟨z, listed, due⟩))
  · rintro (⟨rfl, rfl, rfl, rfl⟩ | due | ⟨rfl, rfl, listed⟩ | ⟨z, listed, due⟩)
    · exact .inl ⟨rfl, rfl, .inl ⟨rfl, rfl⟩⟩
    · exact .inr ⟨y, .inl ⟨rfl, rfl⟩, due⟩
    · exact .inl ⟨rfl, rfl, .inr listed⟩
    · exact .inr ⟨z, .inr listed, due⟩

variable (connected : Connected nodes [] given base) (inert : Inert nodes given base during)
include connected inert

/-- The delivery of a result of a node to some of its listeners. -/
theorem delivery_spreads (hx : x ∈ nodes)
    (relays : ∀ y, base.Feeds nodes x y → SpreadsFully nodes base during y)
    {v : Value} {u u' : World} (hu : during u)
    (result : EndsSilently (.resolve x 1 u.settings.parallel) u v u') (before : List NodeId)
    (entries : OrderedMap Callback) (unique : entries.UniqueKeys)
    (listed : ∀ e ∈ entries, base.Lists ⟨x, e.1, e.2⟩) {w : World} (hw : during w)
    (unmarked : ∀ y, Relation.TransGen (base.HasInput nodes) x y → y ∉ w.marks) :
    ∃ arrivals w', Spreads (before ++ [x]) (.delivering x v entries) w arrivals w' ∧ during w' ∧
      w'.marks = w.marks ∧ arrivals.Nodup ∧
      ∀ call, call ∈ arrivals ↔ DueAmong base nodes before x entries call := by
  induction entries generalizing w with
  | nil => exact ⟨[], w, .done, hw, rfl, List.nodup_nil, by simp [DueAmong]⟩
  | cons e rest ih =>
    obtain ⟨key, callback⟩ := e
    obtain ⟨fresh, uniqueRest⟩ := List.nodup_cons.mp unique
    obtain ⟨first, later⟩ := List.forall_mem_cons.mp listed
    have holding : during (w.using (v.held ++ heldByCallbacks (callback :: OrderedMap.values rest))) :=
      inert.quiet hw rfl
    rcases connected.listed _ hx first with hg | ⟨y, feeds, he⟩
    · -- a callback that was given
      obtain ⟨answer, w₁, call, hw₁⟩ := inert.calls holding _ hg u v u' hu result
      have marks₁ : w₁.marks = w.marks := call.marks_eq
      obtain ⟨arrivals, w', spreads, hw', marks, nodup, due⟩ := ih uniqueRest later
        (w := { w₁ with inUse := w.inUse }) (inert.quiet hw₁ rfl) fun y hy => marks₁ ▸ unmarked y hy
      refine ⟨_, w', .called call spreads, hw', marks.trans marks₁,
        List.nodup_cons.mpr ⟨mt (due _).mp (not_dueAmong_rest fresh), nodup⟩, fun call => ?_⟩
      rw [List.mem_cons, due, dueAmong_cons_of_ne (connected.key_ne_relayKey hg)]
    · -- a relay
      obtain ⟨-, rfl, rfl⟩ := Registration.mk.inj he
      have apart (z : NodeId) (hz : Relation.ReflTransGen (base.HasInput nodes) y z) : z ∉ w.marks :=
        unmarked z (.head' feeds.1 hz)
      obtain ⟨first, w₁, relay, hw₁, marks₁, nodup₁, due₁⟩ := relays y feeds (before ++ [x])
        ((w.using (v.held ++ heldByCallbacks (.relay y :: OrderedMap.values rest))).using [.node y])
        (inert.quiet hw rfl) apart
      have marks₁ : w₁.marks = w.marks := marks₁
      obtain ⟨arrivals, w', spreads, hw', marks, nodup, due⟩ := ih uniqueRest later
        (w := { w₁ with inUse := w.inUse }) (inert.quiet hw₁ rfl) fun y hy => marks₁ ▸ unmarked y hy
      refine ⟨_, w', .relayed (inert.held holding y feeds.1.1) relay spreads, hw',
        marks.trans marks₁, List.nodup_cons.mpr ⟨?_, List.nodup_append.mpr ⟨nodup₁, nodup, ?_⟩⟩,
        fun call => ?_⟩
      · rw [List.mem_append, due₁, due]
        rintro (own | own)
        · exact own.path_ne rfl
        · exact not_dueAmong_rest fresh own
      · rintro call hc call' hc' rfl
        rcases (due call).mp hc' with ⟨own, -, -⟩ | ⟨z, listed, due'⟩
        · exact ((due₁ call).mp hc).path_ne own
        · cases ((due₁ call).mp hc).node_unique due'
          exact fresh (OrderedMap.mem_keys listed)
      · rw [List.mem_cons, List.mem_append, due₁, due, dueAmong_cons_relay]

omit inert in
/-- The relays on a node are those of the nodes that listen to it. -/
theorem relay_listed_iff (hx : x ∈ nodes) :
    (Node.relayKey y, .relay y) ∈ (base.listeners x).entries ↔ base.Feeds nodes x y := by
  constructor
  · intro listed
    rcases connected.listed ⟨x, Node.relayKey y, .relay y⟩ hx listed with hg | ⟨z, feeds, he⟩
    · exact absurd rfl (connected.key_ne_relayKey hg y)
    · obtain ⟨-, same, -⟩ := Registration.mk.inj he
      cases Node.relayKey_injective same
      exact feeds
  · exact fun feeds => (connected.relays feeds List.not_mem_nil).2

/-- A notification of any node of a graph spreads just as it should. -/
theorem spreadsFully (graph : InputGraph nodes base) :
    ∀ x ∈ nodes, SpreadsFully nodes base during x := by
  refine graph.downstream_induction fun x hx ih before w hw unmarked => ?_
  have unmarkedSelf : x ∉ w.marks := unmarked x .refl
  have free : ¬ w.context.isNotifying x := mt World.isNotifying_iff.mp unmarkedSelf
  have entered : during (w.enterNotify x) := inert.quiet hw rfl
  obtain ⟨v, w₁, executed, hw₁⟩ := inert.executes entered x hx
  have marks₁ : w₁.marks = insert x w.marks := by
    rw [executed.marks_eq, World.marks_enterNotify]
  have entries := inert.listeners hw₁ x hx
  have below (y : NodeId) (hy : Relation.TransGen (base.HasInput nodes) x y) : y ∉ w₁.marks := by
    rw [marks₁, Finset.mem_insert]
    rintro (rfl | marked)
    · exact graph.acyclic y hy
    · exact unmarked y hy.to_reflTransGen marked
  obtain ⟨arrivals, w₂, spreads, hw₂, marks₂, nodup, due⟩ :=
    delivery_spreads connected inert hx (fun y feeds => ih y feeds.1) entered executed before
      (base.listeners x).entries (connected.unique x hx) (fun _ => id) hw₁ below
  rw [← entries] at spreads
  refine ⟨arrivals, _, .announced free executed spreads, inert.quiet hw₂ rfl, ?_, nodup,
    fun call => ?_⟩
  · rw [World.marks_leaveNotify, marks₂, marks₁, Finset.erase_insert unmarkedSelf]
  · rw [due, World.Due.iff_here_or_relayed]
    simp only [DueAmong, relay_listed_iff connected hx]

end spread

/-- Callbacks are registered on nodes of a graph that nobody has listened to before. The calls end,
and afterwards the graph is connected. As long as its bodies and the callbacks are inert, a
notification of a node ends then, and it calls every listener of every node exactly once for each
path of relays to that node, and no other listeners. -/
theorem changes_reach_every_listener (nodes : Finset NodeId) (w : World)
    (graph : InputGraph nodes w) (unwired : ∀ x ∈ nodes, ¬ w.isWired x)
    (unheard : ∀ x ∈ nodes, (w.listeners x).entries = [])
    (idle : ∀ x ∈ nodes, ¬ w.context.isNotifying x) (calls : List (NodeId × Callback))
    (inside : ∀ call ∈ calls, call.1 ∈ nodes) :
    ∃ (given : List Registration) (w₁ : World),
      (listenAll calls).Ends w (.ok (given.map fun r => .str r.key)) w₁ ∧
      given.map (fun r => (r.node, r.callback)) = calls ∧ w.SameGraph w₁ ∧
      Connected nodes [] given w₁ ∧
      ∀ during : World → Prop, Inert nodes given w₁ during → ∀ a ∈ nodes,
        ∃ (v : Value) (w₂ : World), (perform (.notify a)).Ends w₁ (.ok v) w₂ ∧
          (∃ arrivals, Spreads [a] (.notifying a) w₁ arrivals w₂) ∧
          ∀ arrivals, Spreads [a] (.notifying a) w₁ arrivals w₂ →
            arrivals.Nodup ∧ ∀ call, call ∈ arrivals ↔
              w₁.RelayPath nodes a call.path call.listener.node ∧ w₁.Lists call.listener := by
  obtain ⟨given, w₁, ends, same, gains, connected⟩ :=
    listenAll_ends graph (.fresh unwired unheard) calls inside
  refine ⟨given, w₁, ends, same, gains.same, connected, fun during inert a ha => ?_⟩
  have graph₁ := graph.of_sameGraph gains.same
  have unmarked (y : NodeId) (hy : Relation.ReflTransGen (w₁.HasInput nodes) a y) :
      y ∉ w₁.marks := by
    have inside : y ∈ nodes := by
      cases hy with
      | refl => exact ha
      | tail _ input => exact input.1
    rw [← World.isNotifying_iff, gains.same.context]
    exact idle y inside
  obtain ⟨arrivals, w₂, spreads, -, -, nodup, due⟩ :=
    spreadsFully connected inert graph₁ a ha [] w₁ inert.start unmarked
  obtain ⟨v, notified⟩ := spreads.ends
  refine ⟨v, w₂, notified, ⟨arrivals, spreads⟩, fun arrivals' spreads' => ?_⟩
  obtain ⟨rfl, -⟩ := spreads.unique spreads'
  refine ⟨nodup, fun call => (due call).trans ?_⟩
  constructor
  · rintro ⟨path, rfl, way, lists⟩
    exact ⟨way, lists⟩
  · rintro ⟨way, lists⟩
    exact ⟨call.path, rfl, way, lists⟩

/-- Writes into the log that it was called. -/
def witnessing : Callback := .program [.input, .record .delivery "changed"]

/-- A node that gives the same result whatever its inputs are. -/
def steadyNode (inputs : List NodeId) : Node where
  operation := "steady"
  source := Segment.unknown
  inputs := inputs.map fun id => .node ⟨id, "steady"⟩
  body := .program [.yield (.int 1)]
  flags := {}
  captured := none
  trigger := .inputs

/-- The first node is an input of two others, of one of them twice, and these are inputs of the last
one. -/
def diamond : World where
  nodes := #[steadyNode [], steadyNode [1], steadyNode [1, 1], steadyNode [2, 3]]
  registers := [("kept", .list [.node ⟨1, "steady"⟩, .node ⟨2, "steady"⟩, .node ⟨3, "steady"⟩,
    .node ⟨4, "steady"⟩])]

/-- The last node and the first one are listened to. -/
def diamondCalls : List (NodeId × Callback) := [(4, witnessing), (1, witnessing)]

def diamondHeard : World := ((listenAll diamondCalls).run 4 diamond).2

theorem diamond_input {m x : Nat} (h : diamond.HasInput {1, 2, 3, 4} m x) :
    (m = 1 ∧ (x = 2 ∨ x = 3)) ∨ ((m = 2 ∨ m = 3) ∧ x = 4) := by
  obtain ⟨hx, hm⟩ := h
  simp only [Finset.mem_insert, Finset.mem_singleton] at hx
  rcases hx with rfl | rfl | rfl | rfl
  · have hm : m ∈ ([] : List NodeId) := hm
    cases hm
  · have hm : m ∈ [1] := hm
    exact .inl ⟨List.mem_singleton.mp hm, .inl rfl⟩
  · have hm : m ∈ [1, 1] := hm
    exact .inl ⟨by simpa using hm, .inr rfl⟩
  · have hm : m ∈ [2, 3] := hm
    exact .inr ⟨by simpa using hm, rfl⟩

theorem diamond_graph : InputGraph {1, 2, 3, 4} diamond := by
  refine ⟨by decide, fun {m x} h => ?_, fun x h => ?_⟩
  · rcases diamond_input h with ⟨rfl, -⟩ | ⟨rfl | rfl, -⟩ <;> decide
  · have lt {m x : Nat} (h : Relation.TransGen (diamond.HasInput {1, 2, 3, 4}) m x) : m < x := by
      induction h with
      | single h =>
        have edge := diamond_input h
        omega
      | tail _ h ih =>
        have edge := diamond_input h
        omega
    exact Nat.lt_irrefl x (lt h)

theorem diamond_listened :
    (listenAll diamondCalls).Ends diamond (.ok [.str "4-0", .str "1-2"]) diamondHeard := ⟨4, rfl⟩

/-- There are two ways from the first node to the last one. -/
theorem diamond_path_iff (same : diamond.SameGraph diamondHeard) {path : List NodeId} :
    diamondHeard.RelayPath {1, 2, 3, 4} 1 path 4 ↔ path = [1, 2, 4] ∨ path = [1, 3, 4] := by
  have edge {m x : Nat} (h : diamondHeard.Feeds {1, 2, 3, 4} m x) :
      (m = 1 ∧ (x = 2 ∨ x = 3)) ∨ ((m = 2 ∨ m = 3) ∧ x = 4) := by
    have input := h.1
    rw [same.hasInput_eq] at input
    exact diamond_input input
  constructor
  · intro h
    -- every step of the path is an edge
    cases h with
    | relay first h =>
      cases h with
      | here =>
        have step := edge first
        omega
      | relay second h =>
        rcases edge second with ⟨rfl, -⟩ | ⟨between, rfl⟩
        · have step := edge first
          omega
        · cases h with
          | here => exact between.imp (fun h => by rw [h]) fun h => by rw [h]
          | relay third _ =>
            have step := edge third
            omega
  · rintro (rfl | rfl)
    · exact .relay ⟨⟨by decide, by decide⟩, by decide⟩
        (.relay ⟨⟨by decide, by decide⟩, by decide⟩ (.here 4))
    · exact .relay ⟨⟨by decide, by decide⟩, by decide⟩
        (.relay ⟨⟨by decide, by decide⟩, by decide⟩ (.here 4))

/-- The nodes and the callbacks do nothing that matters to other nodes. -/
theorem diamond_inert {given : List Registration}
    (hgiven : given.map (fun r => (r.node, r.callback)) = diamondCalls) :
    Inert {1, 2, 3, 4} given diamondHeard (Unchanged diamondHeard) where
  start := rfl
  quiet {w w'} hw hq := by
    rw [Unchanged, hq]
    exact hw
  listeners hw x _ := by rw [World.listeners, World.node?, hw.nodes_eq]; rfl
  held hw x hx := by
    refine isHeld_of_registered hw ?_
    simp only [Finset.mem_insert, Finset.mem_singleton] at hx
    rcases hx with rfl | rfl | rfl | rfl <;> decide
  executes {w} hw x hx := by
    have steady : ∃ n, diamondHeard.node? x = some n ∧ n.body = .program [.yield (.int 1)] ∧
        n.flags = {} ∧ n.captured = none ∧ n.trigger = .inputs := by
      simp only [Finset.mem_insert, Finset.mem_singleton] at hx
      rcases hx with rfl | rfl | rfl | rfl <;> exact ⟨_, rfl, rfl, rfl, rfl, rfl⟩
    obtain ⟨n, hn, body, flags, captured, trigger⟩ := steady
    obtain ⟨learner, run⟩ :=
      resolve_yielding hw rfl rfl hn body flags captured trigger w.settings.parallel
    exact ⟨.int 1, { w with learner }, ⟨1, run _, fun answer => (run _).trans (run _).symm⟩, hw⟩
  calls {w} hw r hr u v u' _ _ := by
    have member : (r.node, r.callback) ∈ diamondCalls := hgiven ▸ List.mem_map_of_mem hr
    have callback : r.callback = witnessing := by
      simp only [diamondCalls, List.mem_cons, Prod.mk.injEq, List.not_mem_nil, or_false] at member
      rcases member with ⟨-, h⟩ | ⟨-, h⟩ <;> exact h
    rw [callback]
    exact ⟨v, w.note (.recorded .delivery "changed" v), ⟨1, rfl, fun _ => rfl⟩, hw⟩

/-- A change of the first node of the diamond reaches the listener of the last one on both sides,
once on each, although the first node is twice among the inputs of a node. -/
theorem diamond_reached_on_both_sides :
    ∃ (given : List Registration) (arrivals : List Arrival) (v : Value) (w₂ : World),
      (listenAll diamondCalls).Ends diamond (.ok (given.map fun r => .str r.key)) diamondHeard ∧
      (perform (.notify 1)).Ends diamondHeard (.ok v) w₂ ∧
      Spreads [1] (.notifying 1) diamondHeard arrivals w₂ ∧ arrivals.Nodup ∧
      ∃ r ∈ given, r.node = 4 ∧ r.callback = witnessing ∧
        ∀ path, ⟨path, r⟩ ∈ arrivals ↔ path = [1, 2, 4] ∨ path = [1, 3, 4] := by
  obtain ⟨given, w₁, ends, same, graph, connected, spreads⟩ :=
    changes_reach_every_listener {1, 2, 3, 4} diamond diamond_graph (by decide) (by decide)
      (by decide) diamondCalls (by decide)
  obtain ⟨-, rfl⟩ := ends.unique (listenAll_plain _) diamond_listened
  obtain ⟨v, w₂, notified, ⟨arrivals, spread⟩, all⟩ := spreads _ (diamond_inert same) 1 (by decide)
  obtain ⟨nodup, due⟩ := all arrivals spread
  -- the first of the calls has registered the listener of the last node
  obtain ⟨r, rest, rfl, first, -⟩ := List.map_eq_cons_iff.mp same
  obtain ⟨node, callback⟩ := Prod.mk.inj first
  obtain ⟨-, -, lists, -⟩ := connected.registered r List.mem_cons_self
  refine ⟨r :: rest, arrivals, v, w₂, ends, notified, spread, nodup, r, List.mem_cons_self, node,
    callback, fun path => ?_⟩
  rw [due, node, diamond_path_iff graph]
  exact and_iff_left lists

end ReactiveScript
