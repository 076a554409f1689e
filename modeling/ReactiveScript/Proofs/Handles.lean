import ReactiveScript.Proofs.NestedSignals

/-!
# Handles

What the handle of a resource makes of the signals that it is sent, for a backend that answers each
call of a hook as it likes but does not signal itself. The calls are kept in their order together
with what they gave. A resource with a recording backend does the same: its state is that of the
handle, and its log shows the calls.
-/

namespace ReactiveScript

structure HookCall where
  hook : Hook
  result : Value

/-- What a backend answers to a hook after the calls that it has received before. -/
abbrev HookAnswers := List HookCall → Hook → Value

/-- What a signal asks of a backend in a state in which it is valid, as long as nothing fails. -/
def LifecycleState.requests (state : LifecycleState) : Signal → List Request
  | .start => if state = .created then [.init, .start] else [.start]
  | .stop => [.stop]
  | .pause => [.pause]
  | .unpause => [.unpause]
  | .destroy => if state = .running ∨ state = .paused then [.stop, .destroy] else [.destroy]
  | .error => []

/-- A lifecycle with the calls that its backend has received, the earliest first. -/
structure Handle where
  state : LifecycleState := .created
  calls : List HookCall := []

namespace Handle

/-- Calls hooks one after the other until one fails; the result is that of the last call. -/
def callHooks (answers : HookAnswers) (h : Handle) (last : Value) : List Request → Value × Handle
  | [] => (last, h)
  | r :: rest =>
    let v := answers h.calls r.hook
    let called := { h with calls := h.calls ++ [⟨r.hook, v⟩] }
    if v.isError then (v, called) else callHooks answers called v rest

def signal (answers : HookAnswers) (name : String) (h : Handle) (s : Signal) : Value × Handle :=
  match h.state.transition? s with
  | none => (h.state.refusal name s, h)
  | some target =>
    let (v, called) := h.callHooks answers .void (h.state.requests s)
    (v, { called with state := h.state.settle target called.state (!v.isError) })

/-- The handle after a sequence of signals. -/
def send (answers : HookAnswers) (name : String) (h : Handle) (signals : List Signal) : Handle :=
  signals.foldl (fun h s => (h.signal answers name s).2) h

variable {answers : HookAnswers} {name : String} {h : Handle} {s : Signal}

theorem callHooks_cons_of_error {r : Request} (failed : (answers h.calls r.hook).isError)
    (last : Value) (rest : List Request) :
    h.callHooks answers last (r :: rest) =
      (answers h.calls r.hook,
        { h with calls := h.calls ++ [⟨r.hook, answers h.calls r.hook⟩] }) := by
  simp [callHooks, failed]

theorem callHooks_cons_of_ok {r : Request} (passed : ¬ (answers h.calls r.hook).isError)
    (last : Value) (rest : List Request) :
    h.callHooks answers last (r :: rest) =
      callHooks answers { h with calls := h.calls ++ [⟨r.hook, answers h.calls r.hook⟩] }
        (answers h.calls r.hook) rest := by
  simp [callHooks, passed]

theorem callHooks_single (h : Handle) (last : Value) (r : Request) :
    h.callHooks answers last [r] = (answers h.calls r.hook,
      { h with calls := h.calls ++ [⟨r.hook, answers h.calls r.hook⟩] }) := by
  simp [callHooks]

/-- Hooks do not move the lifecycle. -/
theorem callHooks_state (h : Handle) (last : Value) (requests : List Request) :
    (h.callHooks answers last requests).2.state = h.state := by
  induction requests generalizing h last with
  | nil => rfl
  | cons r rest ih =>
    by_cases failed : (answers h.calls r.hook).isError
    · rw [callHooks_cons_of_error failed]
    · rw [callHooks_cons_of_ok failed]
      exact ih _ _

theorem signal_of_invalid (invalid : h.state.transition? s = none) :
    h.signal answers name s = (h.state.refusal name s, h) := by
  simp [signal, invalid]

theorem signal_of_called {target : LifecycleState} {v : Value} {called : Handle}
    (valid : h.state.transition? s = some target)
    (call : h.callHooks answers .void (h.state.requests s) = (v, called)) :
    h.signal answers name s =
      (v, { called with state := if v.isError then .failed else target }) := by
  have same : called.state = h.state := by
    rw [← callHooks_state h .void (h.state.requests s), call]
  simp only [signal, valid, call, LifecycleState.settle, same, if_true]
  cases v.isError <;> rfl

end Handle

namespace Eval

/-- Sends requests to a backend until one fails. -/
def callEach (id : ResourceId) (last : Value) : List Request → Eval Value
  | [] => pure last
  | r :: rest => do
    let v ← callBackend id r
    if v.isError then return v else callEach id v rest

/-- Sends signals to a resource. -/
def signalEach (id : ResourceId) : List Signal → Eval Unit
  | [] => pure ()
  | s :: rest => do
    let _ ← perform (.signal id s)
    signalEach id rest

theorem callEach_single (id : ResourceId) (last : Value) (r : Request) :
    callEach id last [r] = callBackend id r := by
  simp [callEach]

theorem callEach_pair (id : ResourceId) (last : Value) (r r' : Request) :
    callEach id last [r, r'] = unlessError (callBackend id r) (callBackend id r') := by
  simp [callEach, unlessError]

/-- The action of a signal is to call the hooks that belong to it. -/
theorem signalAction_eq (id : ResourceId) (state : LifecycleState) (s : Signal) :
    signalAction id state s = callEach id .void (state.requests s) := by
  cases s with
  | start =>
    by_cases created : state = .created
    · simp [signalAction, LifecycleState.requests, created, callEach_pair]
    · simp [signalAction, LifecycleState.requests, created, callEach_single]
  | destroy =>
    by_cases active : state = .running ∨ state = .paused
    · simp [signalAction, LifecycleState.requests, active, callEach_pair]
    · simp [signalAction, LifecycleState.requests, active, callEach_single]
  | error => rfl
  | _ => exact (callEach_single id .void _).symm

end Eval

namespace RecordingBackend

/-- The backend notes every call of a hook, and it does not signal itself. -/
def IsPlain (b : RecordingBackend) : Prop := b.minimal = false ∧ b.reentries = []

/-- What the backend answers to the hooks of its lifecycle. -/
def response (b : RecordingBackend) (hook : Hook) : Value :=
  match b.failures.lookup hook with
  | some message => .error (EvalError.exception message)
  | none => .void

end RecordingBackend

/-- A call as the log shows it. -/
def HookCall.event (name : String) (c : HookCall) : Event := .hook c.hook name .none

/-- A resource of the world is in the state of a handle, and the log shows the calls of the handle
after what it held before. -/
structure Handle.Mirrors (h : Handle) (id : ResourceId) (name : String) (b : RecordingBackend)
    (log : List Event) (w : World) : Prop where
  resource : w.resource? id = some ⟨name, h.state, .recording b⟩
  log : w.log = (h.calls.map (HookCall.event name)).reverse ++ log

theorem LifecycleState.isLifecycle_requests {state : LifecycleState} {s : Signal} {r : Request}
    (hr : r ∈ state.requests s) : r.isLifecycle := by
  cases s <;> simp only [requests] at hr <;> try split at hr
  all_goals
    simp only [List.mem_cons, List.not_mem_nil, or_false] at hr
    try rcases hr with rfl | rfl <;> rfl

namespace Handle.Mirrors

variable {h : Handle} {id : ResourceId} {name : String} {b : RecordingBackend} {log : List Event}
  {w : World}

theorem called (m : h.Mirrors id name b log w) (plain : b.IsPlain) {r : Request}
    (hr : r.isLifecycle) (perform : Task → Run Value) :
    ∃ u, Eval.callBackend id r perform w = (.ok (b.response r.hook), u) ∧
      Mirrors { h with calls := h.calls ++ [⟨r.hook, b.response r.hook⟩] } id name b log u := by
  have detail : r.detail = .none := by cases r <;> first | rfl | cases hr
  have answer : b.answer r = (.void, b) := by cases r <;> first | rfl | cases hr
  let noted := w.note (.hook r.hook name .none)
  have found : noted.resource? id = some ⟨name, h.state, .recording b⟩ := m.resource
  have call : Eval.callBackend id r perform w =
      (match b.failures.lookup r.hook with
        | some message => (return .error (EvalError.exception message) : Eval Value)
        | none => Eval.answerRequest id r) perform noted := by
    rw [Eval.callBackend, Eval.world_bind]
    simp only [m.resource, Eval.callRecording, plain.1, plain.2, List.lookup_nil, detail,
      Bool.false_and]
    rfl
  have entered : Mirrors { h with calls := h.calls ++ [⟨r.hook, b.response r.hook⟩] } id name b log
      noted := by
    refine ⟨m.resource, ?_⟩
    simp [noted, World.note, m.log, HookCall.event]
  rw [call]
  unfold RecordingBackend.response at entered ⊢
  cases failure : b.failures.lookup r.hook with
  | some message =>
    simp only [failure] at entered
    exact ⟨noted, rfl, entered⟩
  | none =>
    simp only [failure] at entered
    have answered : Eval.answerRequest id r perform noted =
        (.ok .void, noted.modifyResource id fun now => { now with backend := .recording b }) := by
      simp only [Eval.answerRequest, Eval.modifyGet, found, Backend.answer, answer]
    refine ⟨_, answered, ?_, entered.log⟩
    rw [World.resource?_modifyResource, found]
    rfl

theorem calledEach (m : h.Mirrors id name b log w) (plain : b.IsPlain) (last : Value)
    {requests : List Request} (hr : ∀ r ∈ requests, r.isLifecycle) (perform : Task → Run Value) :
    ∃ u, Eval.callEach id last requests perform w =
        (.ok (h.callHooks (fun _ => b.response) last requests).1, u) ∧
      (h.callHooks (fun _ => b.response) last requests).2.Mirrors id name b log u := by
  induction requests generalizing h w last with
  | nil => exact ⟨w, rfl, m⟩
  | cons r rest ih =>
    obtain ⟨u, call, entered⟩ := m.called plain (hr r List.mem_cons_self) perform
    rw [Eval.callEach, Eval.bind_of_ok call]
    by_cases failed : (b.response r.hook).isError
    · rw [if_pos failed, Handle.callHooks_cons_of_error failed]
      exact ⟨u, rfl, entered⟩
    · rw [if_neg failed, Handle.callHooks_cons_of_ok failed]
      exact ih entered _ fun r' hr' => hr r' (List.mem_cons_of_mem r hr')

theorem signalled (m : h.Mirrors id name b log w) (plain : b.IsPlain) (s : Signal)
    (perform : Task → Run Value) :
    ∃ u, Eval.signal id s perform w = (.ok (h.signal (fun _ => b.response) name s).1, u) ∧
      (h.signal (fun _ => b.response) name s).2.Mirrors id name b log u := by
  cases valid : h.state.transition? s with
  | none =>
    rw [Handle.signal_of_invalid valid, Eval.signal, Eval.world_bind]
    simp only [m.resource, valid]
    exact ⟨w, rfl, m⟩
  | some target =>
    obtain ⟨u, call, entered⟩ :=
      m.calledEach plain .void (fun r => LifecycleState.isLifecycle_requests) perform
    rw [← Eval.signalAction_eq] at call
    rw [Eval.signal_of_valid m.resource valid call, Handle.signal, valid]
    refine ⟨_, rfl, ?_, entered.log⟩
    rw [World.resource?_modifyResource, entered.resource]
    rfl

theorem sent (m : h.Mirrors id name b log w) (plain : b.IsPlain) (signals : List Signal)
    (fuel : Nat) :
    ∃ u, (Eval.signalEach id signals).run (fuel + 1) w = (.ok (), u) ∧
      (h.send (fun _ => b.response) name signals).Mirrors id name b log u := by
  induction signals generalizing h w with
  | nil => exact ⟨w, rfl, m⟩
  | cons s rest ih =>
    obtain ⟨u, sent, entered⟩ := m.signalled plain s (performWith fuel)
    have first : Eval.perform (.signal id s) (performWith (fuel + 1)) w = (.ok _, u) := sent
    rw [Eval.signalEach, Eval.run, Eval.bind_of_ok first]
    exact ih entered

end Handle.Mirrors
end ReactiveScript
