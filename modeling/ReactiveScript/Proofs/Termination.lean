import ReactiveScript.Proofs.Circuit

/-!
# When notifications end

In a circuit, a notification ends if the ripple of the wiring does, and if no execution fails, only
then. Two listeners that notify their own node are enough for a ripple that never ends.
-/

namespace ReactiveScript

open Eval

/-- An announcement ends when the execution has given a value and the listeners were called. -/
theorem announce_ends {n : NodeId} {v : Value} {s : Except EvalError Unit} {w w₁ w₂ : World}
    (executed : (perform (.resolve n 1 w.settings.parallel)).Ends w (.ok v) w₁)
    (called : (deliverAll v (w₁.listenersOf n)).Ends w₁ s w₂) :
    (announce n).Ends w (s.map fun _ => v) w₂ := by
  have everything (c : Callback) : c.Allowed fun _ => True := c.allowed_of_forall fun _ => trivial
  have call (v : Value) (callbacks : List Callback) : (deliverAll v callbacks).Plain :=
    (Protocol.deliverAll v fun c _ => everything c).routine
  have asked : (Task.resolve n 1 w.settings.parallel).Allowed fun _ => True := trivial
  refine .look (.bind (.perform asked)
    (fun v => .look fun w _ => .bind (call v _) fun _ => .pure v) executed (.look ?_))
  cases s with
  | error e => exact .bind_error called
  | ok _ => exact .bind (call v _) (fun _ => .pure v) called (.pure v w₂)

theorem announce_run {n : NodeId} {fuel : Nat} {w w₁ : World} {v : Value}
    (h : performWith fuel (.resolve n 1 w.settings.parallel) w = (.ok v, w₁)) :
    (announce n).run fuel w = match (deliverAll v (w₁.listenersOf n)).run fuel w₁ with
      | (.ok _, w₂) => (.ok v, w₂)
      | (.error i, w₂) => (.error i, w₂) := by
  simp only [Eval.run, announce, bind_apply, Eval.world, Eval.perform, h]
  rcases deliverAll v (w₁.listenersOf n) (performWith fuel) w₁ with ⟨_ | _, _⟩ <;> rfl

theorem executed_of_announced {n : NodeId} {fuel : Nat} {w : World}
    (h : ((announce n).run fuel w).1 ≠ .error .exhausted) :
    (performWith fuel (.resolve n 1 w.settings.parallel) w).1 ≠ .error .exhausted := by
  intro he
  have gaveUp : performWith fuel (.resolve n 1 w.settings.parallel) w =
      (.error .exhausted, (performWith fuel (.resolve n 1 w.settings.parallel) w).2) :=
    Prod.ext he rfl
  apply h
  simp only [Eval.run, announce, bind_apply, Eval.world, Eval.perform]
  rw [gaveUp]

section ends

variable {base : World} {nodes : Finset NodeId} {during : World → Prop}
  (hC : Circuit base nodes during) {depth : Nat}
include hC

/-- If notifications end when their ripples do, so does whatever only notifies. -/
theorem Emits.ends {α : Type} {targets : List NodeId} {x : Eval α}
    (hN : ∀ n ∈ nodes, ∀ w, during w → ∀ m, ripple base.wiring depth n w.marks = some m →
      ∃ r w', (perform (.notify n)).Ends w r w' ∧ during w' ∧ ∀ v, r = .ok v → w'.marks = m)
    (h : Emits nodes during targets x) :
    ∀ w, during w → ∀ m, ripples base.wiring depth targets w.marks = some m →
      ∃ r w', x.Ends w r w' ∧ during w' ∧ ∀ a, r = .ok a → w'.marks = m := by
  induction h with
  | pure a =>
    intro w hw m hm
    cases hm
    exact ⟨.ok a, w, .pure a w, hw, fun _ _ => rfl⟩
  | note e =>
    intro w hw m hm
    cases hm
    exact ⟨.ok (), w.note e, .of_apply fun _ => rfl, hC.quiet hw rfl, fun _ _ => rfl⟩
  | @notify n hn =>
    intro w hw m hm
    exact hN n hn w hw m (by simpa using hm)
  | deliver h ih =>
    intro w hw m hm
    obtain ⟨r, w', he, rest⟩ := ih w hw m hm
    exact ⟨r, w', .perform he, rest⟩
  | holding held h ih =>
    intro w hw m hm
    obtain ⟨r, w', he, hw', hr⟩ := ih { w with inUse := held ++ w.inUse } (hC.quiet hw rfl) m hm
    exact ⟨r, _, .holding held he, hC.quiet hw' rfl, hr⟩
  | look h ih =>
    intro w hw m hm
    obtain ⟨r, w', he, rest⟩ := ih w hw w hw m hm
    exact ⟨r, w', .look he, rest⟩
  | bind hx hp hf hq ihx ihf =>
    intro w hw m hm
    rw [ripples_append] at hm
    obtain ⟨m₁, h₁, h₂⟩ := Option.bind_eq_some_iff.mp hm
    obtain ⟨r, w₁, he, hw₁, hr⟩ := ihx w hw m₁ h₁
    cases r with
    | error e => exact ⟨.error e, w₁, .bind_error he, hw₁, fun _ h => by cases h⟩
    | ok a =>
      rw [← hr a rfl] at h₂
      obtain ⟨s, w', he', rest⟩ := ihf a w₁ hw₁ m h₂
      exact ⟨s, w', .bind hp hq he he', rest⟩

/-- A notification ends if its ripple does, and if it has a result the marks are those of the
ripple. -/
theorem notify_ends {n : NodeId} (hn : n ∈ nodes) {w : World} (hw : during w) {m : Finset NodeId}
    (hm : ripple base.wiring depth n w.marks = some m) :
    ∃ r w', (perform (.notify n)).Ends w r w' ∧ during w' ∧ ∀ v, r = .ok v → w'.marks = m := by
  induction depth generalizing n w m with
  | zero => cases hm
  | succ depth ih =>
    by_cases hmem : n ∈ w.marks
    · rw [ripple_of_marked hmem] at hm
      cases hm
      refine ⟨.ok .void, w.refuseNotify n, .perform (.of_apply fun _ => ?_), hC.quiet hw rfl,
        fun _ _ => w.marks_refuseNotify n⟩
      exact whileNotifying_of_marked (World.isNotifying_iff.mpr hmem) _
    · rw [ripple_of_not_marked hmem] at hm
      obtain ⟨m, hr, rfl⟩ := Option.map_eq_some_iff.mp hm
      have entered : during (w.enterNotify n) := hC.quiet hw rfl
      suffices h : ∃ r w', (announce n).Ends (w.enterNotify n) r w' ∧ during w' ∧
          ∀ v, r = .ok v → w'.marks = m by
        obtain ⟨r, w', he, hw', hr⟩ := h
        refine ⟨r, w'.leaveNotify n, .perform (.whileNotifying ?_ he), hC.quiet hw' rfl,
          fun v hv => ?_⟩
        · exact mt World.isNotifying_iff.mp hmem
        · rw [World.marks_leaveNotify, hr v hv]
      obtain ⟨fuel, r, w₁, run, hw₁, marks⟩ := executes_marks hC entered hn
      have executed : (perform (.resolve n 1 (w.enterNotify n).settings.parallel)).Ends
          (w.enterNotify n) r w₁ := ⟨fuel, run⟩
      cases r with
      | error e => exact ⟨.error e, w₁, .look (.bind_error executed), hw₁, fun _ h => by cases h⟩
      | ok v =>
        have emits : Emits nodes during (base.wiring n) (deliverAll v (w₁.listenersOf n)) := by
          rw [hC.listeners hw₁ n hn]
          exact emits_deliverAll hC v (concat?_wiring hC hn) (wiring_closed hC n hn)
        rw [← World.marks_enterNotify, ← marks] at hr
        obtain ⟨s, w₂, called, hw₂, hs⟩ := emits.ends hC (fun n hn w hw m => ih hn hw) w₁ hw₁ m hr
        refine ⟨s.map fun _ => v, w₂, announce_ends executed called, hw₂, fun v hv => ?_⟩
        cases s with
        | error e => cases hv
        | ok _ => exact hs () rfl

end ends

section returns

variable {base : World} {nodes : Finset NodeId} {during : World → Prop}
  (hC : Circuit base nodes during) (hR : hC.Returns) {fuel : Nat}

/-- A run that was not exhausted has given a result, and the marks are those of ripples that went as
deep as the fuel allowed. -/
def Rippled (base : World) (during : World → Prop) {α : Type} (fuel : Nat) (targets : List NodeId)
    (x : Eval α) : Prop :=
  ∀ w, during w → (x.run fuel w).1 ≠ .error .exhausted →
    ∃ a w', x.run fuel w = (.ok a, w') ∧ during w' ∧
      ripples base.wiring fuel targets w.marks = some w'.marks

include hC in
/-- If that is so of notifications, it is so of whatever only notifies. -/
theorem Emits.rippled {α : Type} {targets : List NodeId} {x : Eval α}
    (hN : ∀ f ≤ fuel, ∀ n ∈ nodes, Rippled base during f [n] (perform (.notify n)))
    (h : Emits nodes during targets x) : Rippled base during fuel targets x := by
  induction h generalizing fuel with
  | pure a => exact fun w hw _ => ⟨a, w, rfl, hw, rfl⟩
  | note e => exact fun w hw _ => ⟨(), w.note e, rfl, hC.quiet hw rfl, rfl⟩
  | notify hn => exact hN fuel (Nat.le_refl fuel) _ hn
  | deliver h ih =>
    intro w hw he
    cases fuel with
    | zero => exact absurd rfl he
    | succ fuel =>
      obtain ⟨v, w', run, hw', marks⟩ := ih (fun f hf => hN f (Nat.le_succ_of_le hf)) w hw he
      exact ⟨v, w', run, hw', ripples_of_le (Nat.le_succ fuel) marks⟩
  | @holding α x targets held h ih =>
    intro w hw he
    obtain ⟨a, w', run, hw', marks⟩ :=
      ih hN { w with inUse := held ++ w.inUse } (hC.quiet hw rfl) he
    refine ⟨a, { w' with inUse := w.inUse }, ?_, hC.quiet hw' rfl, marks⟩
    have run : x (performWith fuel) { w with inUse := held ++ w.inUse } = (.ok a, w') := run
    show Eval.holding held x (performWith fuel) w = _
    simp only [Eval.holding, run]
  | look h ih => exact fun w hw he => ih w hw hN w hw he
  | @bind α β x f first second hx hp hf hq ihx ihf =>
    intro w hw he
    have hx : (x.run fuel w).1 ≠ .error .exhausted := by
      intro hx
      have gaveUp : x.run fuel w = (.error .exhausted, (x.run fuel w).2) := Prod.ext hx rfl
      rw [run_bind, gaveUp] at he
      exact he rfl
    obtain ⟨a, w₁, run, hw₁, marks⟩ := ihx hN w hw hx
    rw [run_bind, run] at he
    obtain ⟨b, w', run', hw', marks'⟩ := ihf a hN w₁ hw₁ he
    refine ⟨b, w', ?_, hw', ?_⟩
    · rw [run_bind, run]
      exact run'
    · rw [ripples_append, marks]
      exact marks'

include hR in
theorem executed_with_fuel {w : World} (hw : during w) {n : NodeId} (hn : n ∈ nodes)
    (he : (performWith fuel (.resolve n 1 w.settings.parallel) w).1 ≠ .error .exhausted) :
    ∃ v w', performWith fuel (.resolve n 1 w.settings.parallel) w = (.ok v, w') ∧
      during w' ∧ w'.marks = w.marks := by
  obtain ⟨f, v, w', run⟩ := hR hw n hn
  obtain ⟨f', r, w'', run', hw'', marks⟩ := executes_marks hC hw hn
  obtain ⟨rfl, rfl⟩ := Ends.performWith_unique (r := .ok v) run run'
  have ended : (perform (.resolve n 1 w.settings.parallel)).Ends w (.ok v) w' := ⟨f, run⟩
  have asked : (Task.resolve n 1 w.settings.parallel).Allowed fun _ => True := trivial
  exact ⟨v, w', ended.run_of_not_exhausted (.perform asked) he, hw'', marks⟩

include hR in
/-- If no execution fails, a notification that ends has rippled. -/
theorem notify_rippled {n : NodeId} (hn : n ∈ nodes) :
    Rippled base during fuel [n] (perform (.notify n)) := by
  induction fuel using Nat.strongRecOn generalizing n with
  | ind fuel ih =>
    intro w hw he
    cases fuel with
    | zero => exact absurd rfl he
    | succ fuel =>
      rw [ripples_singleton]
      have step : (perform (.notify n)).run (fuel + 1) w =
        whileNotifying n (announce n) (performWith fuel) w := rfl
      by_cases hmem : n ∈ w.marks
      · rw [whileNotifying_of_marked (World.isNotifying_iff.mpr hmem)] at step
        refine ⟨.void, w.refuseNotify n, step, hC.quiet hw rfl, ?_⟩
        rw [ripple_of_marked hmem, World.marks_refuseNotify]
      · have hm := mt World.isNotifying_iff.mp hmem
        rw [whileNotifying_of_not_marked hm] at step
        have entered : during (w.enterNotify n) := hC.quiet hw rfl
        have announced : ((announce n).run fuel (w.enterNotify n)).1 ≠ .error .exhausted := by
          rw [step] at he
          exact he
        obtain ⟨v, w₁, executed, hw₁, marks⟩ :=
          executed_with_fuel hC hR entered hn (executed_of_announced announced)
        rw [announce_run executed] at announced
        have emits : Emits nodes during (base.wiring n) (deliverAll v (w₁.listenersOf n)) := by
          rw [hC.listeners hw₁ n hn]
          exact emits_deliverAll hC v (concat?_wiring hC hn) (wiring_closed hC n hn)
        have called : ((deliverAll v (w₁.listenersOf n)).run fuel w₁).1 ≠ .error .exhausted := by
          intro hx
          rw [show (deliverAll v (w₁.listenersOf n)).run fuel w₁ = (.error .exhausted, _) from
            Prod.ext hx rfl] at announced
          exact announced rfl
        obtain ⟨_, w₂, run, hw₂, hr⟩ :=
          emits.rippled hC (fun f hf n hn => ih f (by omega) hn) w₁ hw₁ called
        refine ⟨v, w₂.leaveNotify n, ?_, hC.quiet hw₂ rfl, ?_⟩
        · rw [step, show announce n (performWith fuel) (w.enterNotify n) = _ from
            announce_run executed, run]
        · rw [marks, World.marks_enterNotify] at hr
          rw [ripple_of_not_marked hmem, hr, World.marks_leaveNotify]
          rfl

end returns

/-- In a circuit, whether a notification ends is told by a ripple of bounded depth: if that ends, so
does the notification, and if no execution fails, the notification does not end otherwise. -/
theorem notify_ends_iff_ripple_ends {base w : World} {nodes : Finset NodeId}
    {during : World → Prop} (hC : Circuit base nodes during) {n : NodeId} (hn : n ∈ nodes)
    (hw : during w) :
    ((ripple base.wiring (rippleBound nodes) n (w.marks ∩ nodes)).isSome →
      ∃ fuel, (performWith fuel (.notify n) w).1 ≠ .error .exhausted) ∧
    (hC.Returns → (∃ fuel, (performWith fuel (.notify n) w).1 ≠ .error .exhausted) →
      (ripple base.wiring (rippleBound nodes) n (w.marks ∩ nodes)).isSome) := by
  have closed := wiring_closed hC
  have inside (depth : Nat) : (ripple base.wiring depth n (w.marks ∩ nodes)).isSome =
      (ripple base.wiring depth n w.marks).isSome := by
    rw [ripple_inter closed hn, Option.isSome_map]
  constructor
  · intro h
    rw [inside] at h
    obtain ⟨m, hm⟩ := Option.isSome_iff_exists.mp h
    obtain ⟨r, w', ⟨fuel, run⟩, -⟩ := notify_ends hC hn hw hm
    exact ⟨fuel, Ends.not_exhausted run⟩
  · rintro hR ⟨fuel, h⟩
    obtain ⟨v, w', -, -, rippled⟩ := notify_rippled hC hR hn w hw h
    rw [ripples_singleton] at rippled
    refine (ripple_isSome_iff closed hn Finset.inter_subset_right).mp ⟨fuel, ?_⟩
    rw [inside, rippled]
    rfl

/-- A node that always gives the same result. -/
def constantNode (listeners : OrderedMap Callback) : Node where
  operation := "constant"
  source := Segment.unknown
  inputs := []
  body := .program [.yield (.int 1)]
  flags := {}
  captured := none
  trigger := .inputs
  listeners := { entries := listeners, next := listeners.length }

/-- Constant nodes with their listeners; the nodes are kept under a name. -/
def constantWorld (listeners : List (OrderedMap Callback)) : World where
  nodes := (listeners.map constantNode).toArray
  registers := (List.range listeners.length).map fun i => ("kept", .node ⟨i + 1, "constant"⟩)

/-- Nothing has changed but what constant nodes change. -/
def Unchanged (base w : World) : Prop :=
  { w.quiet with learner := {} } = { base.quiet with learner := {} }

theorem Unchanged.nodes_eq {base w : World} (h : Unchanged base w) : w.nodes = base.nodes := by
  have nodes := congrArg World.nodes h
  exact nodes

theorem Unchanged.registers_eq {base w : World} (h : Unchanged base w) :
    w.registers = base.registers := by
  have registers := congrArg World.registers h
  exact registers

theorem Unchanged.subscriptions_eq {base w : World} (h : Unchanged base w) :
    w.subscriptions = base.subscriptions := by
  have subscriptions := congrArg World.subscriptions h
  exact subscriptions

/-- The execution of a node that only gives a number asks for nothing. -/
theorem resolve_yielding {base w : World} (h : Unchanged base w) (context : base.context = {})
    (settings : base.settings = .default) {id : NodeId} {n : Node} (hn : base.node? id = some n)
    (body : n.body = .program [.yield (.int 1)]) (flags : n.flags = {})
    (captured : n.captured = none) (trigger : n.trigger = .inputs) (parallel : Bool) :
    ∃ learner, ∀ perform, resolve id 1 parallel perform w = (.ok (.int 1), { w with learner }) := by
  have hn : w.node? id = some n := by
    rw [← hn, World.node?, World.node?, h.nodes_eq]
  have settings : w.settings = .default := (congrArg World.settings h).trans settings
  obtain ⟨operation, source, inputs, _, _, _, _, wired, listeners, fingerprint, info, runs⟩ := n
  cases body
  cases flags
  cases captured
  cases trigger
  obtain ⟨_, reserved, nodes, scopes, resources, subscriptions, table, registers, exports,
    learner, ⟨stack, notifying, guards, calls, corruption, reports, isWorker⟩, inUse, log⟩ := w
  have same : { base.context with notifying := [], guards := [] } = _ :=
    (congrArg World.context h).symm
  rw [context] at same
  cases same
  cases settings
  refine ⟨?_, ?_⟩
  rotate_left
  · intro perform
    unfold resolve execute
    rw [bind_apply, bind_apply]
    simp only [Eval.world]
    rw [hn]
    rfl

theorem isHeld_of_registered {base w : World} (h : Unchanged base w) {n : NodeId}
    (kept : base.registers.any fun e => e.2.held.contains (.node n)) : w.isHeld (.node n) := by
  rw [World.isHeld, World.isKept, h.registers_eq, Bool.or_eq_true, Bool.or_eq_true]
  exact .inl (.inr kept)

section constant

variable {listeners : List (OrderedMap Callback)} {nodes : Finset NodeId}

theorem node?_constant {n : Nat} (h : 0 < n ∧ n ≤ listeners.length) :
    ∃ callbacks, (constantWorld listeners).node? n = some (constantNode callbacks) := by
  have hn : n - 1 < listeners.length := by omega
  have hz : n ≠ 0 := by omega
  exact ⟨listeners[n - 1], by simp [World.node?, constantWorld, hz, hn]⟩

theorem isHeld_constant {w : World} (hw : Unchanged (constantWorld listeners) w) {n : Nat}
    (h : 0 < n ∧ n ≤ listeners.length) : w.isHeld (.node n) := by
  refine isHeld_of_registered hw (List.any_eq_true.mpr ⟨("kept", .node ⟨n, "constant"⟩), ?_, ?_⟩)
  · have hn : n - 1 < listeners.length := by omega
    have hs : n - 1 + 1 = n := by omega
    simpa [constantWorld] using ⟨n - 1, hn, hs⟩
  · simp [Value.held]

/-- Constant nodes make a circuit if their listeners notify such nodes only. -/
theorem constant_circuit (h : ∀ n ∈ nodes, 0 < n ∧ n ≤ listeners.length)
    (wired : ∀ n ∈ nodes, ∃ targets,
      concat? (Callback.targets? (constantWorld listeners))
        ((constantWorld listeners).listenersOf n) = some targets ∧ ∀ m ∈ targets, m ∈ nodes) :
    Circuit (constantWorld listeners) nodes (Unchanged (constantWorld listeners)) where
  start := rfl
  quiet {w w'} hw hq := by
    rw [Unchanged, hq]
    exact hw
  wired := wired
  listeners hw n _ := by rw [World.listenersOf, World.node?, hw.nodes_eq]; rfl
  registers hw := hw.registers_eq
  cancelled hw id := by rw [World.isCancelled, World.subscription?, hw.subscriptions_eq]; rfl
  held hw n hn := isHeld_constant hw (h n hn)
  executes {w} hw n hn := by
    obtain ⟨callbacks, node⟩ := node?_constant (h n hn)
    obtain ⟨learner, run⟩ := resolve_yielding hw rfl rfl node rfl rfl rfl rfl w.settings.parallel
    refine ⟨1, .ok (.int 1), { w with learner }, run _, fun answer => ?_, hw⟩
    exact (run _).trans (run _).symm

theorem constant_circuit_returns
    (hC : Circuit (constantWorld listeners) nodes (Unchanged (constantWorld listeners)))
    (h : ∀ n ∈ nodes, 0 < n ∧ n ≤ listeners.length) : hC.Returns := by
  intro w hw n hn
  obtain ⟨callbacks, node⟩ := node?_constant (h n hn)
  obtain ⟨learner, run⟩ := resolve_yielding hw rfl rfl node rfl rfl rfl rfl w.settings.parallel
  exact ⟨1, .int 1, { w with learner }, run _⟩

end constant

/-- Notifies the first node. -/
def notifyingFirst : Callback := .program [.notify 1]

/-- Two nodes in a circle: the first one relays to the second one, which notifies the first one
twice. -/
def circle : List (OrderedMap Callback) :=
  [[("relay", .relay 2)], [("a", notifyingFirst), ("b", notifyingFirst)]]

theorem circle_circuit :
    Circuit (constantWorld circle) {1, 2} (Unchanged (constantWorld circle)) := by
  refine constant_circuit (by decide) fun n hn => ?_
  rcases Finset.mem_insert.mp hn with rfl | hn
  · exact ⟨[2], rfl, by decide⟩
  · cases Finset.mem_singleton.mp hn
    exact ⟨[1, 1], rfl, by decide⟩

/-- A notification can be overtaken and end all the same. -/
theorem circle_ends :
    Circuit (constantWorld circle) {1, 2} (Unchanged (constantWorld circle)) ∧
    1 ∈ ({1, 2} : Finset NodeId) ∧ Unchanged (constantWorld circle) (constantWorld circle) ∧
    (ripple (constantWorld circle).wiring (rippleBound {1, 2}) 1
      ((constantWorld circle).marks ∩ {1, 2})).isSome ∧
    ∃ fuel, (performWith fuel (.notify 1) (constantWorld circle)).1 ≠ .error .exhausted := by
  have hn : 1 ∈ ({1, 2} : Finset NodeId) := by decide
  have hr : (ripple (constantWorld circle).wiring (rippleBound {1, 2}) 1
      ((constantWorld circle).marks ∩ {1, 2})).isSome := by decide +kernel
  obtain ⟨ends, -⟩ := notify_ends_iff_ripple_ends circle_circuit hn circle_circuit.start
  exact ⟨circle_circuit, hn, rfl, hr, ends hr⟩

/-- One node whose two listeners notify it. -/
def whirl : List (OrderedMap Callback) := [[("a", notifyingFirst), ("b", notifyingFirst)]]

theorem whirl_circuit : Circuit (constantWorld whirl) {1} (Unchanged (constantWorld whirl)) := by
  refine constant_circuit (by decide) fun n hn => ?_
  cases Finset.mem_singleton.mp hn
  exact ⟨[1, 1], rfl, by decide⟩

/-- The executions of the node end with a result and do not notify, and its listeners do nothing
but notify it, and yet a notification of it never ends. -/
theorem whirl_never_ends :
    ∃ hC : Circuit (constantWorld whirl) {1} (Unchanged (constantWorld whirl)), hC.Returns ∧
      ∀ fuel, (performWith fuel (.notify 1) (constantWorld whirl)).1 = .error .exhausted := by
  have hR : whirl_circuit.Returns := constant_circuit_returns whirl_circuit (by decide)
  refine ⟨whirl_circuit, hR, fun fuel => Classical.byContradiction fun h => ?_⟩
  obtain ⟨v, w', -, -, rippled⟩ := notify_rippled whirl_circuit hR (by decide) _ rfl h
  have never : ripple (constantWorld whirl).wiring fuel 1 (constantWorld whirl).marks = none :=
    ripple_twice rfl (by decide)
  rw [ripples_singleton, never] at rippled
  cases rippled

end ReactiveScript
