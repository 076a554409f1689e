import ReactiveScript.Proofs.ErrorRouting
import ReactiveScript.Proofs.Nets
import ReactiveScript.Proofs.Reachability

/-!
# The recursion limit

The engine evaluates a net of nodes as the machine without a limit does, as long as that has no more
executions under way than the limit allows; where it would have more, the engine raises an error
instead. The induction is on the number of executions that may still be entered, and within one
execution on what its function has still to do.
-/

namespace ReactiveScript

open Eval

/-- A world has the nodes and the settings of another one, and no handlers besides. -/
structure World.SameNet (w w' : World) : Prop where
  nodes : w'.nodes = w.nodes
  settings : w'.settings = w.settings
  scopes : ∀ (s : ScopeId) (scope : Scope), w'.scopes[s]? = some scope →
    scope.handler = none ∨ w.scopes[s]? = some scope

namespace World.SameNet

variable {w w' w'' : World}

theorem of_scopes (nodes : w'.nodes = w.nodes) (settings : w'.settings = w.settings)
    (scopes : w'.scopes = w.scopes) : w.SameNet w' :=
  ⟨nodes, settings, fun _ _ h => .inr (scopes ▸ h)⟩

theorem trans (h : w.SameNet w') (h' : w'.SameNet w'') : w.SameNet w'' where
  nodes := h'.nodes.trans h.nodes
  settings := h'.settings.trans h.settings
  scopes s scope found := (h'.scopes s scope found).elim .inl (h.scopes s scope)

theorem addScope (w : World) {new : Scope} (unhandled : new.handler = none) :
    w.SameNet (w.addScope new).2 where
  nodes := rfl
  settings := rfl
  scopes s scope found := by
    rw [World.addScope, Array.getElem?_push] at found
    split at found
    · cases found
      exact .inl unhandled
    · exact .inr found

theorem popScope (w : World) (s : ScopeId) : w.SameNet (w.popScope s) := by
  unfold World.popScope
  split
  · exact .of_scopes rfl rfl rfl
  · next e context _ =>
    refine .trans (.of_scopes rfl rfl rfl : SameNet w { w with context }) ?_
    unfold World.report
    split <;> exact .of_scopes rfl rfl rfl

theorem popAll (w : World) (scopes : ScopeStack) : w.SameNet (w.popAll scopes) := by
  induction scopes generalizing w with
  | nil => exact .of_scopes rfl rfl rfl
  | cons s rest ih => exact (popScope w s).trans (ih _)

theorem inScopes (w : World) (scopes : ScopeStack) : w.SameNet (w.inScopes scopes) := by
  rw [World.inScopes_eq]
  exact .of_scopes rfl rfl rfl

theorem fresh (n : Node) (w : World) : w.SameNet (n.fresh w).2 := by
  rw [Node.fresh]
  split
  · cases w.context.current? with
    | some parent => exact addScope w rfl
    | none => exact addScope w rfl
  · exact .of_scopes rfl rfl rfl

theorem enter (n : Node) (w : World) : w.SameNet (n.enter w).2 :=
  (((inScopes w _).trans (inScopes _ _)).trans (fresh n _)).trans (inScopes _ _)

theorem learning (w : World) (id : NodeId) (n : Node) (r : Except EvalError Value) :
    w.SameNet (w.learning id n r) := by
  unfold World.learning
  split
  · exact .of_scopes rfl rfl rfl
  · split <;> exact .of_scopes rfl rfl rfl

end World.SameNet

namespace Activation

variable {x : Activation} {u : World} {r : Except EvalError Value}

theorem sameNet_inside (x : Activation) : x.before.SameNet x.inside :=
  .trans (.of_scopes rfl rfl rfl : x.before.SameNet (x.before.entering x.id))
    (.enter x.node (x.before.entering x.id))

theorem sameNet_after (x : Activation) (u : World) (r : Except EvalError Value) :
    u.SameNet (x.after u r) :=
  have cleared : u.SameNet (u.popAll x.scopes).clearCorruption :=
    (World.SameNet.popAll u x.scopes).trans (.of_scopes rfl rfl rfl)
  (cleared.trans (.learning _ x.id x.node (x.outcome u r))).trans (.of_scopes rfl rfl rfl)

/-- A body that leaves the context as it is has its scopes on top in the end. -/
theorem popAll_of_context (hu : u.context = x.inside.context) : u.popAll x.scopes =
    u.modifyContext fun c => { c with scopes := x.before.context.scopes } :=
  World.popAll_of_scopes (by rw [hu, x.context_inside])

theorem intact_of_context (hu : u.context = x.inside.context)
    (sound : x.before.context.corruption = none) : x.Intact u := by
  rw [Intact, popAll_of_context hu]
  show u.context.corruption = none
  rw [hu, x.context_inside]
  exact sound

/-- An execution leaves the context as it was. -/
theorem context_after (hu : u.context = x.inside.context)
    (sound : x.before.context.corruption = none) (r : Except EvalError Value) :
    (x.after u r).context = x.before.context := by
  have learnt (w : World) (r : Except EvalError Value) :
      (w.learning x.id x.node r).context = w.context := by
    unfold World.learning
    split
    · rfl
    · split <;> rfl
  simp only [after, World.leaving, World.clearCorruption, World.modifyContext, learnt,
    popAll_of_context hu, Context.leaveCall, hu, x.context_inside, CallStack.pop_push]
  rw [← sound]

end Activation

namespace Enclosure

variable {es : List Enclosure} {w u : World}

theorem sameNet_enterAll (es : List Enclosure) (w : World) : w.SameNet (enterAll es w) := by
  induction es generalizing w with
  | nil => exact .of_scopes rfl rfl rfl
  | cons e inner ih =>
    refine .trans ?_ (ih (e.enter w))
    cases e <;> exact .of_scopes rfl rfl rfl

theorem sameNet_leaveAll (es : List Enclosure) (w u : World) : u.SameNet (leaveAll es w u) := by
  induction es generalizing w with
  | nil => exact .of_scopes rfl rfl rfl
  | cons e inner ih =>
    refine (ih (e.enter w)).trans ?_
    cases e with
    | hold held => exact .of_scopes rfl rfl rfl
    | scope s => exact .popScope _ s

/-- Nothing in the context is entered but scopes. -/
theorem enterAll_context (es : List Enclosure) (w : World) :
    ∃ scopes, (enterAll es w).context = { w.context with scopes } := by
  induction es generalizing w with
  | nil => exact ⟨_, rfl⟩
  | cons e inner ih =>
    obtain ⟨scopes, h⟩ := ih (e.enter w)
    cases e <;> exact ⟨scopes, h⟩

theorem leaveAll_context (h : u.context = (enterAll es w).context) :
    (leaveAll es w u).context = w.context := by
  induction es generalizing w with
  | nil => exact h
  | cons e inner ih =>
    have inside : (leaveAll inner (e.enter w) u).context = (e.enter w).context := ih h
    cases e with
    | hold held => exact inside
    | scope s =>
      have top : (leaveAll inner (w.modifyContext fun c => c.push s) u).context.scopes =
          s :: w.context.scopes := congrArg Context.scopes inside
      show ((leaveAll inner (w.modifyContext fun c => c.push s) u).popScope s).context = _
      rw [World.popScope_of_scopes top]
      show { (leaveAll inner (w.modifyContext fun c => c.push s) u).context with
        scopes := w.context.scopes } = _
      rw [show (leaveAll inner (w.modifyContext fun c => c.push s) u).context = _ from inside]
      rfl

end Enclosure

namespace Execution

variable {x : Execution} {u : World} {r : Except EvalError Value}

/-- An execution gives what its body gives, if no handler gets an error of it. -/
theorem execute_of_body {perform : Task → Run Value}
    (hb : x.body perform x.inside = (r.mapError .raised, u))
    (stays : ∀ e, r = .error e → e.isFatal ∨ ∀ h, ¬ u.HandledBy h) :
    execute x.id perform x.before =
      ((x.outcome u (r.mapError x.located)).mapError .raised, x.after u (r.mapError x.located)) := by
  rw [x.execute_apply, ← finish_mapError]
  congr 1
  have body : runBody x.id x.node perform x.inside = (r.mapError .raised, u) := hb
  rw [runRecovering, bind_apply, Eval.attempt, body]
  cases r with
  | ok v => rfl
  | error e => exact recover_of_stays perform (stays e rfl)

/-- The result is forced to depth one without anything else being done. -/
theorem resolve_of_body {perform : Task → Run Value}
    (hb : x.body perform x.inside = (r.mapError .raised, u)) (settled : Value.Settled r)
    (stays : ∀ e, r = .error e → e.isFatal ∨ ∀ h, ¬ u.HandledBy h) (intact : x.Intact u) :
    resolve x.id 1 false perform x.before =
      (((r.mapError x.located).map Value.joined).mapError .raised,
        x.after u (r.mapError x.located)) := by
  have executed := execute_of_body hb stays
  rw [Activation.outcome_of_intact intact] at executed
  rw [resolve, bind_apply, executed]
  cases r with
  | error e => rfl
  | ok v =>
    show holding v.held (force false v 1) perform _ = _
    rw [force_eq_joined false (settled v rfl).isNode]
    rfl

theorem resolve_of_exhausted {perform : Task → Run Value}
    (hb : x.body perform x.inside = (.error .exhausted, u)) :
    resolve x.id 1 false perform x.before = (.error .exhausted, (u.popAll x.scopes).leaving) := by
  have body : runBody x.id x.node perform x.inside = (.error .exhausted, u) := hb
  rw [resolve, bind_apply, x.execute_apply, runRecovering, bind_apply, Eval.attempt, body]
  rfl

end Execution

namespace Net

variable {net : Net} {w w' w'' u : World}

theorem Fits.of_sameNet (h : net.Fits w) (same : w.SameNet w') : net.Fits w' where
  function id hid := by
    obtain ⟨n, found, body⟩ := h.function id hid
    exact ⟨n, by rw [World.node?, same.nodes]; exact found, body⟩
  unhandled fails s scope found := (same.scopes s scope found).elim id (h.unhandled fails s scope)

theorem Fits.not_handledBy (h : net.Fits w) (fails : net.fails) (handler : Handler) :
    ¬ w.HandledBy handler := by
  rintro ⟨s, k, -, at_⟩
  induction at_ with
  | here found has => exact absurd (has.symm.trans (h.unhandled fails _ _ found)) nofun
  | outward _ _ _ _ ih => exact ih

/-- A world in which a function of the net can run. -/
structure Ready (net : Net) (room : Nat) (w : World) : Prop where
  fits : net.Fits w
  corruption : w.context.corruption = none
  /-- So many executions may still be entered. -/
  size : w.context.calls.size + room = w.settings.maxRecursionDepth

/-- What an evaluation leaves as it was. -/
structure Keeps (net : Net) (w w' : World) : Prop where
  fits : net.Fits w'
  context : w'.context = w.context
  settings : w'.settings = w.settings

theorem Keeps.ready {room : Nat} (h : net.Keeps w w') (ready : net.Ready room w) :
    net.Ready room w' where
  fits := h.fits
  corruption := by rw [h.context]; exact ready.corruption
  size := by rw [h.context, h.settings]; exact ready.size

theorem Keeps.trans (h : net.Keeps w w') (h' : net.Keeps w' w'') : net.Keeps w w'' :=
  ⟨h'.fits, h'.context.trans h.context, h'.settings.trans h.settings⟩

theorem Ready.enterAll {room : Nat} (h : net.Ready room w) (es : List Enclosure) :
    net.Ready room (Enclosure.enterAll es w) where
  fits := h.fits.of_sameNet (Enclosure.sameNet_enterAll es w)
  corruption := by
    obtain ⟨scopes, context⟩ := Enclosure.enterAll_context es w
    rw [context]
    exact h.corruption
  size := by
    obtain ⟨scopes, context⟩ := Enclosure.enterAll_context es w
    rw [context, (Enclosure.sameNet_enterAll es w).settings]
    exact h.size

theorem Keeps.leaveAll {es : List Enclosure} (h : net.Keeps (Enclosure.enterAll es w) u) :
    net.Keeps w (Enclosure.leaveAll es w u) where
  fits := h.fits.of_sameNet (Enclosure.sameNet_leaveAll es w u)
  context := Enclosure.leaveAll_context h.context
  settings := (Enclosure.sameNet_leaveAll es w u).settings.trans
    (h.settings.trans (Enclosure.sameNet_enterAll es w).settings)

theorem Ready.inside {room : Nat} {x : Activation} (h : net.Ready (room + 1) x.before) :
    net.Ready room x.inside where
  fits := h.fits.of_sameNet x.sameNet_inside
  corruption := by
    rw [x.context_inside]
    exact h.corruption
  size := by
    have size := h.size
    rw [x.context_inside, x.sameNet_inside.settings]
    show x.before.context.calls.size + 1 + room = _
    omega

theorem Keeps.after {x : Activation} (h : net.Keeps x.inside u)
    (sound : x.before.context.corruption = none) (r : Except EvalError Value) :
    net.Keeps x.before (x.after u r) where
  fits := h.fits.of_sameNet (x.sameNet_after u r)
  context := x.context_after h.context sound r
  settings := (x.sameNet_after u r).settings.trans (h.settings.trans x.sameNet_inside.settings)

/-- How the result of an evaluation compares with the machine. Either the machine gets to its end
without more executions than there is room for, or it gets to more, and the result is the error of
the recursion limit. -/
inductive Agrees (net : Net) (room : Nat) (start finish : List Suspension → Moment) :
    Except EvalError Value → Prop where
  | ends {r : Except EvalError Value}
      (error : ∀ e, r = .error e → net.fails ∧ e.kind ≠ .recursionLimitExceeded)
      (path : ∀ outer, net.Within (outer.length + room) (start outer) (finish outer)) :
      Agrees net room start finish r
  | exceeds {e : EvalError} (kind : e.kind = .recursionLimitExceeded)
      (path : ∀ outer, ∃ m, net.Within (outer.length + room) (start outer) m ∧
        outer.length + room < m.active) :
      Agrees net room start finish (.error e)

variable {room : Nat} {start start' finish finish' : List Suspension → Moment}
  {r : Except EvalError Value} {e : EvalError}

/-- An error is fatal, or the net has no handlers. -/
theorem Agrees.stays (h : net.Agrees room start finish (.error e)) (fits : net.Fits w) :
    e.isFatal ∨ ∀ handler, ¬ w.HandledBy handler := by
  cases h with
  | ends error path => exact .inr (fits.not_handledBy (error e rfl).1)
  | exceeds kind path =>
    rw [EvalError.isFatal, kind]
    exact .inl rfl

/-- The machine is first brought to where the evaluation starts. -/
theorem Agrees.before (h : net.Agrees room start finish r)
    (first : ∀ outer, net.Within (outer.length + room) (start' outer) (start outer)) :
    net.Agrees room start' finish r := by
  cases h with
  | ends error path => exact .ends error fun outer => (first outer).trans (path outer)
  | exceeds kind path =>
    refine .exceeds kind fun outer => ?_
    obtain ⟨m, within, more⟩ := path outer
    exact ⟨m, (first outer).trans within, more⟩

/-- The machine goes on where the evaluation has ended; errors are located. -/
theorem Agrees.after (h : net.Agrees room start finish r) (locate : EvalError → EvalError)
    (kept : ∀ e, (locate e).kind = e.kind)
    (last : ∀ outer, net.Within (outer.length + room) (finish outer) (finish' outer)) :
    net.Agrees room start finish' (r.mapError locate) := by
  cases h with
  | ends error path =>
    refine .ends (fun e he => ?_) fun outer => (path outer).trans (last outer)
    cases r with
    | ok v => cases he
    | error e' =>
      cases he
      rw [kept]
      exact error e' rfl
  | exceeds kind path => exact .exceeds ((kept _).trans kind) path

/-- The rest of a function is evaluated as the machine does, with room for more executions. -/
def RunsTo (net : Net) (room : Nat) (d : Deferred) (w : World) (r : Except EvalError Value)
    (w' : World) : Prop :=
  net.Keeps w w' ∧ Value.Settled r ∧
    (∀ fuel, room < fuel → d.eval (performWith fuel) w = (r.mapError .raised, w')) ∧
    ∀ x, net.Agrees (room + 1) (fun outer => .running x d outer w)
      (fun outer => .running x (.ending r) outer w') r

/-- A node is forced as the machine does. -/
def CallsTo (net : Net) (room : Nat) (id : NodeId) (w : World) (r : Except EvalError Value)
    (w' : World) : Prop :=
  net.Keeps w w' ∧ Value.Settled r ∧
    (∀ fuel, room < fuel → performWith fuel (.resolve id 1 false) w =
      ((r.map Value.joined).mapError .raised, w')) ∧
    net.Agrees room (net.called id w) (.ended r w') r

/-- Without room a node is refused where the machine executes one more. -/
theorem callsTo_refused {id : NodeId} (hid : id ∈ net.nodes) (ready : net.Ready 0 w) :
    ∃ r w', net.CallsTo 0 id w r w' := by
  obtain ⟨n, found, -⟩ := ready.fits.function id hid
  have limit : w.settings.maxRecursionDepth ≤ w.context.calls.size := Nat.le_of_eq ready.size.symm
  refine ⟨.error _, w, ⟨ready.fits, rfl, rfl⟩, nofun, fun fuel more => ?_,
    .exceeds (e := (EvalError.recursionLimitExceeded w.settings.maxRecursionDepth).withSource
      n.source) (EvalError.withSource_kind ..) fun outer => ⟨_, .refl _, ?_⟩⟩
  · obtain ⟨fuel, rfl⟩ := Nat.exists_eq_add_one.mpr more
    show resolve id 1 false (performWith fuel) w = _
    rw [resolve, bind_apply, execute_of_limit found limit]
    rfl
  · rw [called, found]
    exact Nat.lt_succ_self outer.length

/-- With room, a node is executed as the machine does, if its function runs so. -/
theorem callsTo_executed {id : NodeId} (hid : id ∈ net.nodes) (ready : net.Ready (room + 1) w)
    (runs : ∀ w, net.Ready room w → ∃ r w', net.RunsTo room (net.function id) w r w') :
    ∃ r w', net.CallsTo (room + 1) id w r w' := by
  obtain ⟨n, found, body⟩ := ready.fits.function id hid
  have admitted : w.context.calls.size < w.settings.maxRecursionDepth := by
    have size := ready.size
    omega
  let x : Execution := ⟨⟨id, n, w⟩, found, admitted⟩
  obtain ⟨r, u, keeps, settled, evaluated, agrees⟩ := runs x.inside ready.inside
  have intact : x.Intact u := Activation.intact_of_context keeps.context ready.corruption
  have ends (r : Except EvalError Value) : x.outcome u r = r :=
    Activation.outcome_of_intact intact r
  refine ⟨r.mapError x.located, x.after u (r.mapError x.located), keeps.after ready.corruption _,
    fun v hv => ?_, fun fuel more => ?_, ?_⟩
  · cases r with
    | ok v' => exact settled v hv
    | error e => cases hv
  · obtain ⟨fuel, rfl⟩ := Nat.exists_eq_add_one.mpr (Nat.zero_lt_of_lt more)
    have ran : x.body (performWith fuel) x.inside = (r.mapError .raised, u) := by
      rw [Activation.body, body]
      exact evaluated fuel (Nat.lt_of_succ_lt_succ more)
    exact Execution.resolve_of_body ran settled
      (fun e he => (he ▸ agrees x.toActivation).stays keeps.fits) intact
  · refine ((agrees x.toActivation).after x.located (fun e => EvalError.withSource_kind e _)
      fun outer => ?_).before fun outer => ?_
    · have stepped : net.step (.running x.toActivation (.ending r) outer u) =
          .ended (r.mapError x.located) (x.after u (r.mapError x.located)) outer := by
        cases r with
        | ok v => rw [Deferred.ending, step, ends]; rfl
        | error e => rw [Deferred.ending, step, ends]; rfl
      rw [← stepped]
      exact .single (Nat.add_le_add_left (Nat.succ_pos room) _)
    · rw [called, found]
      exact .refl _

/-- The machine steps to a call that is forced, for which the execution waits. -/
theorem Agrees.forcing {id : NodeId} {es : List Enclosure} {next : Value → Deferred} {u : World}
    (h : net.Agrees room (net.called id (Enclosure.enterAll es w)) (.ended r u) r)
    (x : Activation) :
    net.Agrees (room + 1) (fun outer => .running x (.force es id next) outer w)
      (fun outer => .ended r u (⟨x, es, w, next⟩ :: outer)) r := by
  have within (outer : List Suspension) : (⟨x, es, w, next⟩ :: outer).length + room =
      outer.length + (room + 1) := by simp only [List.length_cons]; omega
  have called : net.Agrees (room + 1)
      (fun outer => net.called id (Enclosure.enterAll es w) (⟨x, es, w, next⟩ :: outer))
      (fun outer => .ended r u (⟨x, es, w, next⟩ :: outer)) r := by
    cases h with
    | ends error path => exact .ends error fun outer => within outer ▸ path _
    | exceeds kind path => exact .exceeds kind fun outer => within outer ▸ path _
  exact called.before fun outer => .single (Nat.add_le_add_left (Nat.succ_pos room) _)

/-- A function runs as the machine does, if nodes are forced so. The induction is on what the
function has still to do. -/
theorem runsTo_of_callsTo
    (calls : ∀ id ∈ net.nodes, ∀ w, net.Ready room w → ∃ r w', net.CallsTo room id w r w')
    {d : Deferred} (hd : net.Admits d) (ready : net.Ready room w) :
    ∃ r w', net.RunsTo room d w r w' := by
  have active (x : Activation) (d : Deferred) (outer : List Suspension) (w : World) :
      (Moment.running x d outer w).active ≤ outer.length + (room + 1) :=
    Nat.add_le_add_left (Nat.succ_pos room) _
  induction d generalizing w with
  | answer v =>
    exact ⟨.ok v, w, ⟨ready.fits, rfl, rfl⟩, Value.settled_ok hd, fun _ _ => rfl,
      fun x => .ends nofun fun outer => .refl _⟩
  | raise e =>
    refine ⟨.error e, w, ⟨ready.fits, rfl, rfl⟩, nofun, fun _ _ => rfl, fun x => .ends ?_ fun outer =>
      .refl _⟩
    rintro e' ⟨⟩
    exact hd
  | look next ih =>
    obtain ⟨r, w', keeps, settled, evaluated, agrees⟩ := ih w (hd w) ready
    exact ⟨r, w', keeps, settled, evaluated, fun x =>
      (agrees x).before fun outer => .single (active x (.look next) outer w)⟩
  | change f next ih =>
    obtain ⟨fits, context, settings⟩ := hd.1 w ready.fits
    have changed : net.Keeps w (f w) := ⟨fits, context, settings⟩
    obtain ⟨r, w', keeps, settled, evaluated, agrees⟩ := ih hd.2 (changed.ready ready)
    exact ⟨r, w', changed.trans keeps, settled, evaluated, fun x =>
      (agrees x).before fun outer => .single (active x (.change f next) outer w)⟩
  | force es id next ih =>
    obtain ⟨r, u, keeps, free, performed, agrees⟩ := calls id hd.1 _ (ready.enterAll es)
    have left : net.Keeps w (Enclosure.leaveAll es w u) := keeps.leaveAll
    have forced (fuel : Nat) (more : room < fuel) :
        Enclosure.around es (Eval.perform (.resolve id 1 false)) (performWith fuel) w =
          ((r.map Value.joined).mapError .raised, Enclosure.leaveAll es w u) := by
      rw [Enclosure.around_apply]
      show ((performWith fuel _ _).1, Enclosure.leaveAll es w (performWith fuel _ _).2) = _
      rw [performed fuel more]
    cases r with
    | error e =>
      refine ⟨.error e, Enclosure.leaveAll es w u, left, nofun, fun fuel more => ?_,
        fun x => agrees.forcing x⟩
      rw [Deferred.eval, bind_apply, forced fuel more]
      rfl
    | ok v =>
      obtain ⟨r', w', keeps', settled, evaluated, agrees'⟩ :=
        ih v.joined (hd.2 v.joined (.of_bare v.bare_joined (free v rfl))) (left.ready ready)
      refine ⟨r', w', left.trans keeps', settled, fun fuel more => ?_, fun x =>
        (agrees' x).before fun outer => ?_⟩
      · rw [Deferred.eval, bind_apply, forced fuel more]
        exact evaluated fuel more
      · cases agrees.forcing x with
        | ends error path => exact path outer

/-- The functions of a closed net run as the machine does, whatever room there is. -/
theorem runsTo (closed : net.Closed) {d : Deferred} (hd : net.Admits d) (ready : net.Ready room w) :
    ∃ r w', net.RunsTo room d w r w' := by
  induction room generalizing d w with
  | zero => exact runsTo_of_callsTo (fun id hid w ready => callsTo_refused hid ready) hd ready
  | succ room ih =>
    refine runsTo_of_callsTo (fun id hid w ready => ?_) hd ready
    exact callsTo_executed hid ready fun w ready => ih (closed id hid) ready

theorem callsTo (closed : net.Closed) {id : NodeId} (hid : id ∈ net.nodes)
    (ready : net.Ready room w) : ∃ r w', net.CallsTo room id w r w' := by
  cases room with
  | zero => exact callsTo_refused hid ready
  | succ room => exact callsTo_executed hid ready fun w ready => runsTo closed (closed id hid) ready

/-- A node of the net is forced where the limit allows so many executions. -/
def Asked (net : Net) (limit : Nat) (t : Task) (w : World) : Prop :=
  ∃ id ∈ net.nodes, ∃ room, t = .resolve id 1 false ∧ net.Ready room w ∧
    w.settings.maxRecursionDepth = limit

variable {limit fuel left : Nat} {t : Task} {other : Task → Run Value}

/-- With whatever fuel a node has been forced, it leaves what every forcing leaves. -/
theorem keeps_of_performed (closed : net.Closed) {id : NodeId} (hid : id ∈ net.nodes)
    (ready : net.Ready room w) {v : Value}
    (h : performWith fuel (.resolve id 1 false) w = (.ok v, u)) : net.Keeps w u ∧ v.NodeFree := by
  obtain ⟨r, w', keeps, settled, performed, -⟩ := callsTo closed hid ready
  have more := performed (max fuel (room + 1)) (Nat.lt_of_lt_of_le (Nat.lt_succ_self room)
    (Nat.le_max_right ..))
  rw [performWith_eq_of_le (Nat.le_max_left ..) (by rw [h]; exact nofun), h] at more
  obtain ⟨same, rfl⟩ := Prod.mk.inj more
  refine ⟨keeps, ?_⟩
  cases r with
  | error e => cases same
  | ok v' =>
    cases same
    exact .of_bare v'.bare_joined (settled v' rfl)

/-- A function asks for nodes of the net only, within the limit. -/
theorem eval_agrees (closed : net.Closed)
    (same : ∀ t w, net.Asked limit t w → other t w = performWith left t w) {d : Deferred}
    (hd : net.Admits d) (ready : net.Ready room w) (hl : w.settings.maxRecursionDepth = limit) :
    d.eval other w = d.eval (performWith left) w := by
  induction d generalizing w with
  | answer v => rfl
  | raise e => rfl
  | look next ih => exact ih w (hd w) ready hl
  | change f next ih =>
    obtain ⟨fits, context, settings⟩ := hd.1 w ready.fits
    exact ih hd.2 (Keeps.ready ⟨fits, context, settings⟩ ready) (settings ▸ hl)
  | force es id next ih =>
    have entered := ready.enterAll es
    have settings := (Enclosure.sameNet_enterAll es w).settings
    have asked : net.Asked limit (.resolve id 1 false) (Enclosure.enterAll es w) :=
      ⟨id, hd.1, room, rfl, entered, settings ▸ hl⟩
    have forced : Enclosure.around es (Eval.perform (.resolve id 1 false)) other w =
        Enclosure.around es (Eval.perform (.resolve id 1 false)) (performWith left) w := by
      simp only [Enclosure.around_apply, Eval.perform, same _ _ asked]
    rw [Deferred.eval, bind_apply, bind_apply, forced, Enclosure.around_apply]
    rcases hp : Eval.perform (.resolve id 1 false) (performWith left) (Enclosure.enterAll es w) with
      ⟨result, u⟩
    cases result with
    | error i => rfl
    | ok v =>
      obtain ⟨keeps, free⟩ := keeps_of_performed closed hd.1 entered hp
      have left : net.Keeps w (Enclosure.leaveAll es w u) := keeps.leaveAll
      exact ih v (hd.2 v free) (left.ready ready) (left.settings ▸ hl)

/-- So does the forcing of a node, whose function runs within the limit. -/
theorem step_agrees (closed : net.Closed) (asked : net.Asked limit t w)
    (same : ∀ t w, net.Asked limit t w → other t w = performWith left t w) :
    Eval.step t other w = Eval.step t (performWith left) w := by
  obtain ⟨id, hid, room, rfl, ready, hl⟩ := asked
  obtain ⟨n, found, body⟩ := ready.fits.function id hid
  show resolve id 1 false other w = resolve id 1 false (performWith left) w
  cases room with
  | zero =>
    have full : w.settings.maxRecursionDepth ≤ w.context.calls.size :=
      Nat.le_of_eq ready.size.symm
    simp only [resolve, bind_apply, execute_of_limit found full]
  | succ room =>
    have admitted : w.context.calls.size < w.settings.maxRecursionDepth := by
      have size := ready.size
      omega
    let x : Execution := ⟨⟨id, n, w⟩, found, admitted⟩
    have inside : net.Ready room x.inside := ready.inside
    have bodies : x.body other x.inside = x.body (performWith left) x.inside := by
      rw [Activation.body, body]
      exact eval_agrees closed same (closed id hid) inside (x.sameNet_inside.settings ▸ hl)
    obtain ⟨r, u, keeps, settled, evaluated, agrees⟩ := runsTo closed (closed id hid) inside
    by_cases ended : (x.body.run left x.inside).1 = .error .exhausted
    · rcases hb : x.body (performWith left) x.inside with ⟨result, v⟩
      obtain rfl : result = .error .exhausted := by rwa [Eval.run, hb] at ended
      exact (Execution.resolve_of_exhausted (bodies.trans hb)).trans
        (Execution.resolve_of_exhausted hb).symm
    · have more : x.body.run (max left (room + 1)) x.inside = (r.mapError .raised, u) := by
        rw [Eval.run, Activation.body, body]
        exact evaluated _ (Nat.lt_of_lt_of_le (Nat.lt_succ_self room) (Nat.le_max_right ..))
      have ran : x.body (performWith left) x.inside = (r.mapError .raised, u) :=
        (run_eq_of_le x.body_plain (Nat.le_max_left ..) ended).symm.trans more
      have intact : x.Intact u := Activation.intact_of_context keeps.context ready.corruption
      have stays (e : EvalError) (he : r = .error e) := (he ▸ agrees x.toActivation).stays keeps.fits
      exact (Execution.resolve_of_body (bodies.trans ran) settled stays intact).trans
        (Execution.resolve_of_body ran settled stays intact).symm

/-- Every task that comes up is the forcing of a node of the net, within the limit. -/
theorem asked_of_reached (closed : net.Closed) (asked : net.Asked limit t w) {t' : Task}
    (h : Reached (Eval.perform t) fuel w left t' u) : net.Asked limit t' u := by
  have good {x : Eval Value} {left : Nat} {w : World} {t' : Task} {u : World}
      (agrees : ∀ other : Task → Run Value,
        (∀ t w, net.Asked limit t w → other t w = performWith left t w) →
          x other w = x (performWith left) w)
      (h : x.DependsOn (performWith left) w t' u) : net.Asked limit t' u := by
    obtain ⟨other, same, differs⟩ := h
    by_contra hn
    refine differs (agrees other fun t₁ w₁ asked => same t₁ w₁ ?_)
    rintro ⟨rfl, rfl⟩
    exact hn asked
  induction h with
  | asked h => exact good (fun other same => same t w asked) h
  | nested _ h ih => exact good (x := Eval.step _) (fun other same => step_agrees closed ih same) h

end Net

open Net in
/-- Forcing a node of a net ends, whatever cycles there are. No more executions are ever under way
than the limit allows, and those that it has begun are over in the end. The result is the error of
the recursion limit exactly if the evaluation without a limit would at some moment have more
executions under way; otherwise it is the result of that evaluation. -/
theorem recursion_limit_exact (net : Net) (closed : net.Closed) (root : NodeRef)
    (hroot : root.id ∈ net.nodes) (w : World) (fits : net.Fits w)
    (idle : w.context.calls = CallStack.empty) (sound : w.context.corruption = none) :
    let limit := w.settings.maxRecursionDepth
    let Comes := net.Reaches (net.called root.id w [])
    ∃ r w', (∀ fuel, limit < fuel →
        (fix (.node root) 1).run fuel w = (r.mapError .raised, w')) ∧
      w'.context = w.context ∧
      (∀ fuel left t u, Reached (fix (.node root) 1) fuel w left t u →
        u.context.calls.size ≤ limit ∧ (∃ id ∈ net.nodes, t = .resolve id 1 false) ∧
        (u.context.calls.size = limit → ∃ e, e.kind = .recursionLimitExceeded ∧
          ∀ perform, Eval.step t perform u = (.error (.raised e), u))) ∧
      ((∃ e, r = .error e ∧ e.kind = .recursionLimitExceeded) ↔ ∃ m, Comes m ∧ limit < m.active) ∧
      ((∀ m, Comes m → m.active ≤ limit) → Comes (.finished r w')) := by
  intro limit Comes
  have ready : net.Ready limit w := by
    refine ⟨fits, sound, ?_⟩
    rw [idle]
    exact Nat.zero_add limit
  have fixed : fix (.node root) 1 = perform (.resolve root.id 1 false) := by
    rw [fix, force, if_neg Nat.one_ne_zero]
  rw [fixed]
  obtain ⟨r, w', keeps, settled, performed, agrees⟩ := callsTo closed hroot ready
  refine ⟨r.map Value.joined, w', performed, keeps.context, fun fuel left t u reached => ?_, ?_⟩
  · obtain ⟨id, hid, room, rfl, ready', hl⟩ :=
      asked_of_reached closed ⟨root.id, hroot, limit, rfl, ready, rfl⟩ reached
    obtain ⟨n, found, -⟩ := ready'.fits.function id hid
    have size := ready'.size
    refine ⟨by omega, ⟨id, hid, rfl⟩, fun full => ?_⟩
    refine ⟨(EvalError.recursionLimitExceeded u.settings.maxRecursionDepth).withSource n.source,
      EvalError.withSource_kind .., fun perform => ?_⟩
    show resolve id 1 false perform u = _
    rw [resolve, bind_apply, execute_of_limit found (by omega)]
  · cases agrees with
    | ends error path =>
      have within : net.Within limit (net.called root.id w []) (.finished (r.map Value.joined) w') := by
        have path := path []
        rwa [List.length_nil, Nat.zero_add] at path
      have few (m : Moment) (comes : Comes m) : m.active ≤ limit := within.active_le comes
      refine ⟨iff_of_false ?_ ?_, fun _ => within.reaches⟩
      · rintro ⟨e, he, kind⟩
        cases r with
        | ok v => cases he
        | error e' =>
          cases he
          exact (error e rfl).2 kind
      · rintro ⟨m, comes, more⟩
        exact Nat.not_lt.mpr (few m comes) more
    | @exceeds e kind path =>
      obtain ⟨m, within, more⟩ := path []
      rw [List.length_nil, Nat.zero_add] at more
      refine ⟨iff_of_true ⟨e, rfl, kind⟩ ⟨m, within.reaches, more⟩, fun few => ?_⟩
      exact absurd more (Nat.not_lt.mpr (few m within.reaches))

/-- A node that forces itself, and one that forces a number; two executions may be under way. -/
def loopWorld : World where
  settings := { Settings.default with maxRecursionDepth := 2 }
  nodes := #[
    { operation := "loop", source := Segment.unknown, inputs := [.node ⟨1, "loop"⟩], flags := {}
      body := .program [.input, .fix 1], captured := none, trigger := .inputs },
    { operation := "pass", source := Segment.unknown, inputs := [.node ⟨3, "five"⟩], flags := {}
      body := .program [.input, .fix 1], captured := none, trigger := .inputs },
    { operation := "five", source := Segment.unknown, inputs := [], flags := {}
      body := .program [.yield (.int 5)], captured := none, trigger := .inputs }]

def loopNet : Net where
  nodes id := id = 1 ∨ id = 2 ∨ id = 3
  function
    | 1 => .force [] 1 .answer
    | 2 => .force [] 3 .answer
    | _ => .answer (.int 5)
  fails := False

/-- The node that forces itself hits the limit; the other one stays within it. -/
theorem loop_hits_limit :
    loopNet.Closed ∧ loopNet.Fits loopWorld ∧
      (∃ e w', (fix (.node ⟨1, "loop"⟩) 1).run 3 loopWorld = (.error (.raised e), w') ∧
        e.kind = .recursionLimitExceeded ∧ w'.context = loopWorld.context) ∧
      (∃ w', (fix (.node ⟨2, "pass"⟩) 1).run 3 loopWorld = (.ok (.int 5), w') ∧
        ∀ m, loopNet.Reaches (loopNet.called 2 loopWorld []) m → m.active ≤ 2) := by
  have closed : loopNet.Closed := by
    rintro id (rfl | rfl | rfl)
    · exact ⟨.inl rfl, fun v h => h⟩
    · exact ⟨.inr (.inr rfl), fun v h => h⟩
    · rfl
  have fits : loopNet.Fits loopWorld := by
    refine ⟨?_, nofun⟩
    rintro id (rfl | rfl | rfl) <;> exact ⟨_, rfl, rfl⟩
  refine ⟨closed, fits, ?_, ?_⟩
  · obtain ⟨r, w', ran, context, -, exceeds, -⟩ :=
      recursion_limit_exact loopNet closed ⟨1, "loop"⟩ (.inl rfl) loopWorld fits rfl rfl
    obtain ⟨e, rfl, kind⟩ := exceeds.mpr ⟨_, .step (.step .refl), by decide⟩
    exact ⟨e, w', ran 3 (by decide), kind, context⟩
  · obtain ⟨r, w', ran, -, -, exceeds, -⟩ :=
      recursion_limit_exact loopNet closed ⟨2, "pass"⟩ (.inr (.inl rfl)) loopWorld fits rfl rfl
    have five : ((fix (.node ⟨2, "pass"⟩) 1).run 3 loopWorld).1 = .ok (.int 5) := rfl
    have result := ran 3 (by decide)
    rw [result] at five
    refine ⟨w', result.trans (congrArg (Prod.mk · w') five), fun m comes => ?_⟩
    by_contra more
    obtain ⟨e, rfl, -⟩ := exceeds.mpr ⟨m, comes, Nat.lt_of_not_le more⟩
    cases five

end ReactiveScript
