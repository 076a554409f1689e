import ReactiveScript.Evaluation.Step
import ReactiveScript.Proofs.Attempts

/-!
# Nested signals

While the action of a signal runs, further signals may move the lifecycle. Whether they have done so
is decided from the state before the action and the one after it: the transition of the outer signal
is dropped exactly if these differ. So a nested signal that leaves the lifecycle elsewhere
supersedes the outer one, but an excursion, which comes back to the state at which the outer signal
arrived, goes unnoticed.
-/

namespace ReactiveScript

namespace LifecycleState

/-- Where a signal leads whose action is done, if nothing has moved the lifecycle meanwhile. -/
def conclude (target : LifecycleState) (answer : Value) : LifecycleState :=
  if answer.isError then failed else target

theorem settle_of_same (state target : LifecycleState) (answer : Value) :
    state.settle target state (!answer.isError) = target.conclude answer := by
  cases h : answer.isError <;> simp [settle, conclude, h]

theorem settle_of_moved {state now : LifecycleState} (h : now ≠ state) (target : LifecycleState)
    (succeeded : Bool) : state.settle target now succeeded = now := by
  simp [settle, h]

end LifecycleState

namespace SignalPlan

variable {name : String} {state target : LifecycleState}

mutual

/-- The states in which a planned signal and the signals nested in it, at any depth, leave the
lifecycle, in the order in which they return. Signals that are not valid leave it alone. -/
def visited (name : String) (state : LifecycleState) : SignalPlan → List LifecycleState
  | ⟨signal, nested, answer⟩ =>
    match state.transition? signal with
    | none => []
    | some _ => visitedAll name state nested ++ [(apply name state ⟨signal, nested, answer⟩).state]

def visitedAll (name : String) (state : LifecycleState) : List SignalPlan → List LifecycleState
  | [] => []
  | plan :: rest => visited name state plan ++ visitedAll name (apply name state plan).state rest

end

/-- Some signal of a sequence, or nested in one of it, has changed the state. -/
def Moves (name : String) (state : LifecycleState) (plans : List SignalPlan) : Prop :=
  ∃ s ∈ visitedAll name state plans, s ≠ state

theorem apply_of_invalid {signal : Signal} (invalid : state.transition? signal = none)
    (nested : List SignalPlan) (answer : Value) :
    apply name state ⟨signal, nested, answer⟩ = ⟨state.refusal name signal, none, state⟩ := by
  simp [apply, invalid]

theorem apply_of_valid {signal : Signal} (valid : state.transition? signal = some target)
    (nested : List SignalPlan) (answer : Value) :
    apply name state ⟨signal, nested, answer⟩ =
      ⟨answer, some state, state.settle target (applyAll name state nested) (!answer.isError)⟩ := by
  simp [apply, valid]

theorem getLast?_visited (plan : SignalPlan) :
    (visited name state plan).getLast?.getD state = (apply name state plan).state := by
  obtain ⟨signal, nested, answer⟩ := plan
  cases h : state.transition? signal with
  | none => simp [visited, h, apply_of_invalid h]
  | some target => simp [visited, h]

/-- The last state that was visited is the present one. -/
theorem getLast?_visitedAll (plans : List SignalPlan) :
    (visitedAll name state plans).getLast?.getD state = applyAll name state plans := by
  induction plans generalizing state with
  | nil => rfl
  | cons plan rest ih =>
    -- Without a signal that returns, the rest stays in the state that the first one leaves.
    rw [applyAll, ← ih, visitedAll, List.getLast?_append]
    cases (visitedAll name (apply name state plan).state rest).getLast? with
    | none => exact getLast?_visited plan
    | some s => rfl

theorem applyAll_of_not_moves {plans : List SignalPlan} (still : ¬ Moves name state plans) :
    applyAll name state plans = state := by
  rw [← getLast?_visitedAll]
  cases h : (visitedAll name state plans).getLast? with
  | none => rfl
  | some s =>
    have mem : s ∈ visitedAll name state plans := List.mem_of_getLast? h
    exact Decidable.byContradiction fun moved => still ⟨s, mem, moved⟩

end SignalPlan

section resources

variable {perform : Task → Run Value} {id : ResourceId} {w u : World} {r : Resource} {s : Signal}
  {target : LifecycleState} {v : Value}

theorem World.resource?_modifyResource (w : World) (id : ResourceId) (f : Resource → Resource) :
    (w.modifyResource id f).resource? id = (w.resource? id).map f := by
  simp [resource?, modifyResource, Array.getElem?_modify]

theorem World.resource?_modifyResource_of_ne (w : World) (f : Resource → Resource)
    {other : ResourceId} (h : other ≠ id) :
    (w.modifyResource id f).resource? other = w.resource? other := by
  simp [resource?, modifyResource, Array.getElem?_modify, h.symm]

theorem Eval.signal_of_valid (found : w.resource? id = some r)
    (valid : r.state.transition? s = some target)
    (acted : signalAction id r.state s perform w = (.ok v, u)) :
    signal id s perform w = (.ok v, u.modifyResource id fun now =>
      { now with state := r.state.settle target now.state (!v.isError) }) := by
  rw [signal, world_bind]
  simp only [found, valid]
  rw [bind_of_ok acted]
  rfl

/-- Whatever the hooks of a resource do, its state afterwards is the one they leave, unless that is
the one they found. -/
theorem Eval.signal_settles (found : w.resource? id = some r)
    (valid : r.state.transition? s = some target)
    (acted : signalAction id r.state s perform w = (.ok v, u)) {now : Resource}
    (left : u.resource? id = some now) :
    (signal id s perform w).2.resource? id = some { now with
      state := if now.state = r.state then target.conclude v else now.state } := by
  rw [signal_of_valid found valid acted, World.resource?_modifyResource, left]
  by_cases same : now.state = r.state
  · simp only [Option.map_some, same, if_true, LifecycleState.settle_of_same]
  · simp only [Option.map_some, if_neg same, LifecycleState.settle_of_moved same]

end resources

namespace SignalPlan

/-- A valid signal whose nested signals leave another state than it found is superseded; otherwise
it is concluded. So it is superseded by every nested signal that changes the state except on an
excursion: where the nested signals come back, the outer signal is concluded nevertheless. The same
holds of the signals of a resource, whatever its hooks do. -/
theorem superseded_unless_excursion (name : String) {state target : LifecycleState}
    {signal : Signal} (valid : state.transition? signal = some target) (nested : List SignalPlan)
    (answer : Value) :
    let left := applyAll name state nested
    let after := (apply name state ⟨signal, nested, answer⟩).state
    (left ≠ state → after = left) ∧
    (left = state → after = target.conclude answer) ∧
    (¬ Moves name state nested → left = state) ∧
    (((Moves name state nested → after = left) ∧
        (¬ Moves name state nested → after = target.conclude answer)) ↔
      ¬ (Moves name state nested ∧ left = state ∧ target.conclude answer ≠ state)) ∧
    ∀ fuel id w u r v now, w.resource? id = some r → r.state = state →
      (Eval.signalAction id state signal).run fuel w = (.ok v, u) → u.resource? id = some now →
      ((Eval.signal id signal).run fuel w).2.resource? id = some { now with
        state := if now.state = state then target.conclude v else now.state } := by
  intro left after
  have moved : left ≠ state → after = left := by
    intro h
    simp only [after, apply_of_valid valid]
    exact LifecycleState.settle_of_moved h target _
  have back : left = state → after = target.conclude answer := by
    intro h
    simp only [after, apply_of_valid valid]
    rw [show applyAll name state nested = state from h]
    exact LifecycleState.settle_of_same state target answer
  have still : ¬ Moves name state nested → left = state := applyAll_of_not_moves
  refine ⟨moved, back, still, ?_, ?_⟩
  · constructor
    · rintro ⟨superseded, -⟩ ⟨moves, same, differs⟩
      have concluded := back same
      rw [superseded moves, same] at concluded
      exact differs concluded.symm
    · intro settled
      refine ⟨fun moves => ?_, fun h => back (still h)⟩
      by_cases same : left = state
      · rw [back same, same]
        exact Decidable.byContradiction fun differs => settled ⟨moves, same, differs⟩
      · exact moved same
  · intro fuel id w u r v now found here acted leaves
    subst here
    exact Eval.signal_settles found valid acted leaves

/-- A start whose action reports an error is superseded by it. -/
theorem reported_error_supersedes_start :
    LifecycleState.created.transition? .start = some .running ∧
      (apply "r" .created ⟨.start, [quiet .error], .void⟩).state = .failed := by
  have valid : LifecycleState.created.transition? .start = some .running := rfl
  have moved := (superseded_unless_excursion "r" valid [quiet .error] .void).1
  exact ⟨valid, moved (by decide)⟩

/-- An action that pauses the lifecycle and resumes it has changed the state, and leaves it running;
the stop that it was run for takes place nevertheless. -/
theorem excursion_not_noticed :
    Moves "r" .running [quiet .pause, quiet .unpause] ∧
      applyAll "r" .running [quiet .pause, quiet .unpause] = .running ∧
      (apply "r" .running ⟨.stop, [quiet .pause, quiet .unpause], .void⟩).state = .stopped := by
  refine ⟨⟨.paused, ?_, ?_⟩, ?_, ?_⟩ <;> decide

end SignalPlan
end ReactiveScript
