import ReactiveScript.Proofs.Initialisation

/-!
# The order of hooks

The state of a lifecycle tells what has happened to the backend: a running one was started or
resumed last, a paused one was paused last, and a stopped one was stopped or destroyed after every
start. This is why a signal calls a hook only where the hook is due. The history of a handle holds
the calls of hooks and the errors that were signalled, which move the lifecycle without a call.
-/

namespace ReactiveScript

/-- What a signal does to a backend. -/
inductive LifecycleEvent where
  | called (c : HookCall)
  /-- An error was signalled; no hook is called. -/
  | errorSignalled

namespace LifecycleEvent

def call? : LifecycleEvent → Option HookCall
  | called c => some c
  | errorSignalled => none

def Calls (e : LifecycleEvent) (hook : Hook) : Prop := ∃ c, e = called c ∧ c.hook = hook

/-- The hook was called and did not fail. -/
def Passes (e : LifecycleEvent) (hook : Hook) : Prop := ∃ c, e = called c ∧ c.Passes hook

/-- The event ends what was started. -/
def Ends (e : LifecycleEvent) : Prop := e.Calls .stop ∨ e.Calls .destroy

/-- The event is none of those by which a backend starts to run, goes on or ceases to run. -/
def KeepsRunning (e : LifecycleEvent) : Prop :=
  e ≠ errorSignalled ∧ ¬ e.Ends ∧ ¬ e.Calls .start ∧ ¬ e.Calls .pause ∧ ¬ e.Calls .unpause

end LifecycleEvent

open LifecycleEvent

/-- A start passed, and the backend was neither stopped nor destroyed since. -/
def Started (past : List LifecycleEvent) : Prop :=
  ∃ before e after, past = before ++ e :: after ∧ e.Passes .start ∧ ∀ d ∈ after, ¬ d.Ends

/-- After every start that passed the backend was stopped or destroyed. -/
def Ended (past : List LifecycleEvent) : Prop :=
  ∀ before e after, past = before ++ e :: after → e.Passes .start → ∃ d ∈ after, d.Ends

/-- When the hooks of a lifecycle are due. -/
structure IsDue (hook : Hook) (past : List LifecycleEvent) : Prop where
  start : hook = .start → Ended past
  pause : hook = .pause → ∃ before e after, past = before ++ e :: after ∧
    (e.Passes .start ∨ e.Passes .unpause) ∧ ∀ d ∈ after, d.KeepsRunning
  unpause : hook = .unpause → ∃ before e, past = before ++ [e] ∧ e.Passes .pause
  stop : hook = .stop → Started past

/-- Every hook was due when it was called. -/
def InOrder (past : List LifecycleEvent) : Prop :=
  ∀ before c after, past = before ++ called c :: after → IsDue c.hook before

/-- What has happened to a backend whose lifecycle is in a state. -/
def LifecycleState.Tells : LifecycleState → List LifecycleEvent → Prop
  | created, past => past = []
  | running, past => Started past ∧
    ∃ before e, past = before ++ [e] ∧ (e.Passes .start ∨ e.Passes .unpause)
  | paused, past => Started past ∧ ∃ before e, past = before ++ [e] ∧ e.Passes .pause
  | stopped, past => Ended past
  | failed, _ => True

section histories

variable {past : List LifecycleEvent} {e : LifecycleEvent} {c : HookCall} {hook : Hook}

theorem LifecycleEvent.calls_iff : (called c).Calls hook ↔ c.hook = hook := by
  constructor
  · rintro ⟨d, h, hd⟩
    cases h
    exact hd
  · exact fun h => ⟨c, rfl, h⟩

theorem LifecycleEvent.Passes.calls (h : e.Passes hook) : e.Calls hook := by
  obtain ⟨c, hc, passes⟩ := h
  exact ⟨c, hc, passes.1⟩

theorem LifecycleEvent.Calls.unique {hook' : Hook} (h : e.Calls hook) (h' : e.Calls hook') :
    hook = hook' := by
  obtain ⟨c, rfl, rfl⟩ := h
  exact calls_iff.mp h'

theorem LifecycleEvent.Passes.not_ends (h : e.Passes hook) (stop : hook ≠ .stop)
    (destroy : hook ≠ .destroy) : ¬ e.Ends := by
  rintro (ends | ends)
  · exact stop (h.calls.unique ends)
  · exact destroy (h.calls.unique ends)

theorem Started.concat (h : Started past) (going : ¬ e.Ends) : Started (past ++ [e]) := by
  obtain ⟨before, d, after, rfl, passes, since⟩ := h
  refine ⟨before, d, after ++ [e], by simp, passes, fun d' hd' => ?_⟩
  rcases List.mem_append.mp hd' with hd' | hd'
  · exact since d' hd'
  · rw [List.mem_singleton.mp hd']
    exact going

theorem started_of_start (h : e.Passes .start) : Started (past ++ [e]) :=
  ⟨past, e, [], rfl, h, List.forall_mem_nil _⟩

theorem ended_nil : Ended [] := by
  intro before e after split
  cases before <;> cases split

theorem ended_concat (h : e.Ends) : Ended (past ++ [e]) := by
  intro before d after split passes
  rcases List.eq_nil_or_concat after with rfl | ⟨later, e', rfl⟩
  · -- The last event ends the run, so it is not the start that is looked at.
    obtain ⟨-, last⟩ := List.append_inj' split rfl
    cases last
    exact absurd h (passes.not_ends nofun nofun)
  · have split : past ++ [e] = (before ++ d :: later) ++ [e'] := by simpa using split
    obtain ⟨-, last⟩ := List.append_inj' split rfl
    cases last
    exact ⟨e, by simp, h⟩

/-- Only a start can make a backend run that has ended. -/
theorem Ended.concat (h : Ended past) (other : ¬ e.Calls .start) : Ended (past ++ [e]) := by
  intro before d after split passes
  rcases List.eq_nil_or_concat after with rfl | ⟨later, e', rfl⟩
  · obtain ⟨-, last⟩ := List.append_inj' split rfl
    cases last
    exact absurd passes.calls other
  · have split : past ++ [e] = (before ++ d :: later) ++ [e'] := by simpa using split
    obtain ⟨earlier, -⟩ := List.append_inj' split rfl
    obtain ⟨d', hd', ends⟩ := h before d later earlier passes
    exact ⟨d', by simp [hd'], ends⟩

theorem inOrder_nil : InOrder [] := by
  intro before c after split
  cases before <;> cases split

theorem InOrder.concat (h : InOrder past) (due : ∀ c, e = called c → IsDue c.hook past) :
    InOrder (past ++ [e]) := by
  intro before d after split
  rcases List.eq_nil_or_concat after with rfl | ⟨later, e', rfl⟩
  · obtain ⟨rfl, last⟩ := List.append_inj' split rfl
    cases last
    exact due d rfl
  · have split : past ++ [e] = (before ++ called d :: later) ++ [e'] := by simpa using split
    exact h before d later (List.append_inj' split rfl).1

/-- Nothing is asked of the hooks that initialise or destroy a backend. -/
theorem isDue_of_other (start : hook ≠ .start) (pause : hook ≠ .pause) (unpause : hook ≠ .unpause)
    (stop : hook ≠ .stop) : IsDue hook past :=
  ⟨fun h => absurd h start, fun h => absurd h pause, fun h => absurd h unpause,
    fun h => absurd h stop⟩

theorem isDue_init : IsDue .init past := isDue_of_other nofun nofun nofun nofun

theorem isDue_destroy : IsDue .destroy past := isDue_of_other nofun nofun nofun nofun

theorem isDue_start (h : Ended past) : IsDue .start past := ⟨fun _ => h, nofun, nofun, nofun⟩

theorem isDue_stop (h : Started past) : IsDue .stop past := ⟨nofun, nofun, nofun, fun _ => h⟩

theorem isDue_pause (h : LifecycleState.running.Tells past) : IsDue .pause past := by
  obtain ⟨-, before, e, rfl, passes⟩ := h
  exact ⟨nofun, fun _ => ⟨before, e, [], rfl, passes, List.forall_mem_nil _⟩, nofun, nofun⟩

theorem isDue_unpause (h : LifecycleState.paused.Tells past) : IsDue .unpause past :=
  ⟨nofun, nofun, fun _ => h.2, nofun⟩

end histories

namespace Handle

variable {answers : HookAnswers} {name : String} {h : Handle} {s : Signal}

/-- What a signal adds to the history. -/
def events (answers : HookAnswers) (name : String) (h : Handle) (s : Signal) :
    List LifecycleEvent :=
  ((h.signal answers name s).2.calls.drop h.calls.length).map called ++
    if s = .error then [errorSignalled] else []

/-- What happens to the backend during a sequence of signals. -/
def history (answers : HookAnswers) (name : String) (h : Handle) : List Signal → List LifecycleEvent
  | [] => []
  | s :: rest => h.events answers name s ++ history answers name (h.signal answers name s).2 rest

/-- Calls are only ever added. -/
theorem prefix_callHooks (h : Handle) (last : Value) (requests : List Request) :
    h.calls <+: (h.callHooks answers last requests).2.calls := by
  induction requests generalizing h last with
  | nil => exact List.prefix_rfl
  | cons r rest ih =>
    let called : Handle := { h with calls := h.calls ++ [⟨r.hook, answers h.calls r.hook⟩] }
    have added : h.calls <+: called.calls := List.prefix_append _ _
    by_cases failed : (answers h.calls r.hook).isError
    · rw [callHooks_cons_of_error failed]
      exact added
    · rw [callHooks_cons_of_ok failed]
      exact added.trans (ih called _)

theorem prefix_signal (h : Handle) (s : Signal) :
    h.calls <+: (h.signal answers name s).2.calls := by
  cases valid : h.state.transition? s with
  | none =>
    refine ⟨[], ?_⟩
    rw [signal_of_invalid valid, List.append_nil]
  | some target =>
    rw [signal_of_called valid rfl]
    exact prefix_callHooks h .void (h.state.requests s)

/-- The calls of a history are those that the handle has made. -/
theorem calls_history (h : Handle) (signals : List Signal) :
    h.calls ++ (h.history answers name signals).filterMap call? =
      (h.send answers name signals).calls := by
  induction signals generalizing h with
  | nil => simp [history, send]
  | cons s rest ih =>
    have added : (h.events answers name s).filterMap call? =
        (h.signal answers name s).2.calls.drop h.calls.length := by
      have none : (if s = .error then [errorSignalled] else []).filterMap call? = [] := by
        split <;> rfl
      have all (calls : List HookCall) : (calls.map called).filterMap call? = calls := by
        rw [List.filterMap_map]
        exact List.filterMap_some
      rw [events, List.filterMap_append, none, all, List.append_nil]
    obtain ⟨later, all⟩ : h.calls <+: (h.signal answers name s).2.calls := prefix_signal h s
    rw [history, List.filterMap_append, added, ← List.append_assoc, ← all, List.drop_left, all]
    exact ih _

theorem events_of_invalid (invalid : h.state.transition? s = none) :
    h.events answers name s = [] := by
  have other : s ≠ .error := by
    rintro rfl
    cases state : h.state <;> rw [state] at invalid <;> cases invalid
  simp [events, signal_of_invalid invalid, other]

/-- What has to be shown of a signal: that the history stays in order, and what the new state
tells. -/
def Kept (answers : HookAnswers) (name : String) (h : Handle) (past : List LifecycleEvent)
    (s : Signal) : Prop :=
  (h.signal answers name s).2.state.Tells (past ++ h.events answers name s) ∧
    InOrder (past ++ h.events answers name s)

variable {past : List LifecycleEvent} {target : LifecycleState}

theorem kept_of_called {v : Value} {new : List HookCall} {after : Handle}
    (valid : h.state.transition? s = some target) (hs : s ≠ .error)
    (call : h.callHooks answers .void (h.state.requests s) = (v, after))
    (added : after.calls = h.calls ++ new) (order : InOrder (past ++ new.map called))
    (tells : v.isError = false → target.Tells (past ++ new.map called)) :
    Kept answers name h past s := by
  have signalled : h.signal answers name s = _ := signal_of_called valid call
  have events : h.events answers name s = new.map called := by
    simp [Handle.events, signalled, added, hs]
  rw [Kept, events, signalled]
  refine ⟨?_, order⟩
  cases failed : v.isError with
  | true => trivial
  | false => exact tells failed

/-- A signal that calls one hook. -/
theorem kept_of_hook {r : Request} (valid : h.state.transition? s = some target) (hs : s ≠ .error)
    (requests : h.state.requests s = [r]) (order : InOrder past) (due : IsDue r.hook past)
    (tells : ∀ e : LifecycleEvent, e.Passes r.hook → target.Tells (past ++ [e])) :
    Kept answers name h past s := by
  have call : h.callHooks answers .void [r] = _ := callHooks_single h .void r
  rw [← requests] at call
  refine kept_of_called valid hs call rfl (order.concat fun c hc => ?_) fun passed => ?_
  · cases hc
    exact due
  · exact tells _ ⟨_, rfl, rfl, passed⟩

/-- A signal that calls a hook and, unless that fails, a second one. -/
theorem kept_of_hooks {r r' : Request} (valid : h.state.transition? s = some target)
    (hs : s ≠ .error) (requests : h.state.requests s = [r, r']) (order : InOrder past)
    (due : IsDue r.hook past)
    (next : ∀ e : LifecycleEvent, e.Passes r.hook → IsDue r'.hook (past ++ [e]))
    (tells : ∀ e e' : LifecycleEvent, e.Passes r.hook → e'.Passes r'.hook →
      target.Tells (past ++ [e] ++ [e'])) : Kept answers name h past s := by
  have first : InOrder (past ++ [called ⟨r.hook, answers h.calls r.hook⟩]) := by
    refine order.concat fun c hc => ?_
    cases hc
    exact due
  by_cases failed : (answers h.calls r.hook).isError
  · have call : h.callHooks answers .void [r, r'] = _ := callHooks_cons_of_error failed .void [r']
    rw [← requests] at call
    exact kept_of_called valid hs call rfl first fun passed => absurd (failed.symm.trans passed) nofun
  · have call : h.callHooks answers .void [r, r'] = _ :=
      (callHooks_cons_of_ok failed .void [r']).trans (callHooks_single _ _ r')
    rw [← requests] at call
    have passes : (called ⟨r.hook, answers h.calls r.hook⟩).Passes r.hook :=
      ⟨_, rfl, rfl, Bool.eq_false_iff.mpr failed⟩
    refine kept_of_called valid hs call (List.append_assoc _ _ _) ?_ fun passed => ?_
    · rw [List.map_append, ← List.append_assoc]
      refine first.concat fun c hc => ?_
      cases hc
      exact next _ passes
    · rw [List.map_append, ← List.append_assoc]
      exact tells _ _ passes ⟨_, rfl, rfl, passed⟩

theorem kept_start (valid : h.state.transition? .start = some target) (tells : h.state.Tells past)
    (order : InOrder past) : Kept answers name h past .start := by
  have running (past : List LifecycleEvent) {e : LifecycleEvent} (passes : e.Passes .start) :
      LifecycleState.running.Tells (past ++ [e]) :=
    ⟨started_of_start passes, past, e, rfl, .inl passes⟩
  cases state : h.state with
  | created =>
    have requests : h.state.requests .start = [.init, .start] := by rw [state]; rfl
    rw [state] at tells valid
    cases valid
    obtain rfl : past = [] := tells
    refine kept_of_hooks (by rw [state]; rfl) nofun requests order isDue_init (fun e passes => ?_)
      fun e e' _ passes => running _ passes
    refine isDue_start (ended_nil.concat fun start => ?_)
    cases passes.calls.unique start
  | stopped =>
    have requests : h.state.requests .start = [.start] := by rw [state]; rfl
    rw [state] at tells valid
    cases valid
    exact kept_of_hook (by rw [state]; rfl) nofun requests order (isDue_start tells)
      fun e passes => running past passes
  | _ =>
    rw [state] at valid
    cases valid

theorem started_of_active (active : h.state = .running ∨ h.state = .paused)
    (tells : h.state.Tells past) : Started past := by
  rcases active with active | active
  · rw [active] at tells
    exact tells.1
  · rw [active] at tells
    exact tells.1

theorem kept_stop (valid : h.state.transition? .stop = some target) (tells : h.state.Tells past)
    (order : InOrder past) : Kept answers name h past .stop := by
  have active : h.state = .running ∨ h.state = .paused := by
    cases hs : h.state <;> rw [hs] at valid <;> simp [LifecycleState.transition?] at valid ⊢
  have leads : h.state.transition? .stop = some .stopped := by
    rcases active with active | active <;> rw [active] <;> rfl
  exact kept_of_hook leads (by decide) rfl order (isDue_stop (started_of_active active tells))
    fun e passes => ended_concat (.inl passes.calls)

theorem kept_pause (valid : h.state.transition? .pause = some target) (tells : h.state.Tells past)
    (order : InOrder past) : Kept answers name h past .pause := by
  obtain state : h.state = .running := by
    cases hs : h.state <;> rw [hs] at valid <;> first | rfl | cases valid
  rw [state] at tells valid
  cases valid
  refine kept_of_hook (by rw [state]; rfl) nofun rfl order (isDue_pause tells) fun e passes => ?_
  exact ⟨tells.1.concat (passes.not_ends nofun nofun), past, e, rfl, passes⟩

theorem kept_unpause (valid : h.state.transition? .unpause = some target)
    (tells : h.state.Tells past) (order : InOrder past) : Kept answers name h past .unpause := by
  obtain state : h.state = .paused := by
    cases hs : h.state <;> rw [hs] at valid <;> first | rfl | cases valid
  rw [state] at tells valid
  cases valid
  refine kept_of_hook (by rw [state]; rfl) nofun rfl order (isDue_unpause tells) fun e passes => ?_
  exact ⟨tells.1.concat (passes.not_ends nofun nofun), past, e, rfl, .inr passes⟩

theorem kept_destroy (tells : h.state.Tells past) (order : InOrder past) :
    Kept answers name h past .destroy := by
  have leads : h.state.transition? .destroy = some .stopped := by cases h.state <;> rfl
  have destroyed (past : List LifecycleEvent) {e : LifecycleEvent} (passes : e.Passes .destroy) :
      LifecycleState.stopped.Tells (past ++ [e]) := ended_concat (.inr passes.calls)
  by_cases active : h.state = .running ∨ h.state = .paused
  · have requests : h.state.requests .destroy = [.stop, .destroy] := if_pos active
    exact kept_of_hooks leads nofun requests order (isDue_stop (started_of_active active tells))
      (fun _ _ => isDue_destroy) fun e e' _ passes => destroyed _ passes
  · have requests : h.state.requests .destroy = [.destroy] := if_neg active
    exact kept_of_hook leads nofun requests order isDue_destroy fun e passes => destroyed past passes

theorem kept_error (order : InOrder past) : Kept answers name h past .error := by
  have leads : h.state.transition? .error = some .failed := by cases h.state <;> rfl
  have call : h.callHooks answers .void (h.state.requests .error) = (.void, h) := rfl
  have signalled : h.signal answers name .error = _ := signal_of_called leads call
  have events : h.events answers name .error = [errorSignalled] := by
    simp [Handle.events, signalled]
  rw [Kept, events, signalled]
  exact ⟨trivial, order.concat nofun⟩

/-- A signal keeps the history in order, and the state goes on to tell it. -/
theorem kept_signal (tells : h.state.Tells past) (order : InOrder past) (s : Signal) :
    Kept answers name h past s := by
  cases valid : h.state.transition? s with
  | none =>
    rw [Kept, events_of_invalid valid, signal_of_invalid valid, List.append_nil]
    exact ⟨tells, order⟩
  | some target =>
    cases s with
    | start => exact kept_start valid tells order
    | stop => exact kept_stop valid tells order
    | pause => exact kept_pause valid tells order
    | unpause => exact kept_unpause valid tells order
    | destroy => exact kept_destroy tells order
    | error => exact kept_error order

theorem inOrder_history (tells : h.state.Tells past) (order : InOrder past)
    (signals : List Signal) : InOrder (past ++ h.history answers name signals) := by
  induction signals generalizing h past with
  | nil => simpa [history] using order
  | cons s rest ih =>
    obtain ⟨tells, order⟩ : Kept answers name h past s := kept_signal tells order s
    rw [history, ← List.append_assoc]
    exact ih tells order

end Handle

theorem LifecycleState.isError_refusal (state : LifecycleState) (name : String) (s : Signal) :
    (state.refusal name s).isError := rfl

/-- Whatever the hooks answer, each is called only where it is due: the start of a backend that has
ended, the pause of one that was started or resumed last, the resumption of one that was paused
last, and the stop of one that has started. A signal that is not valid changes nothing and is
answered by an error value. A resource with a plain recording backend receives the calls of its
handle, and any resource is left as it is by a signal that is not valid. -/
theorem hooks_called_where_due (answers : HookAnswers) (name : String) (signals : List Signal) :
    let h := Handle.send answers name {} signals
    let past := Handle.history answers name {} signals
    past.filterMap call? = h.calls ∧
    (∀ before c after, past = before ++ called c :: after → IsDue c.hook before) ∧
    (∀ s, h.state.transition? s = none →
      ∃ v, h.signal answers name s = (v, h) ∧ v.isError ∧ h.events answers name s = []) ∧
    (∀ (b : RecordingBackend) (id : ResourceId) (w : World) (fuel : Nat), b.IsPlain →
      w.resource? id = some ⟨name, .created, .recording b⟩ →
      ∃ u, (Eval.signalEach id signals).run (fuel + 1) w = (.ok (), u) ∧
        (Handle.send (fun _ => b.response) name {} signals).Mirrors id name b w.log u) ∧
    ∀ (id : ResourceId) (w : World) (r : Resource) (s : Signal) (fuel : Nat),
      w.resource? id = some r → r.state.transition? s = none →
      ∃ v, (Eval.signal id s).run fuel w = (.ok v, w) ∧ v.isError := by
  intro h past
  refine ⟨Handle.calls_history {} signals, ?_, fun s invalid => ?_, ?_, ?_⟩
  · have fresh : ({} : Handle).state.Tells [] := rfl
    exact Handle.inOrder_history fresh inOrder_nil signals
  · exact ⟨_, Handle.signal_of_invalid invalid, LifecycleState.isError_refusal _ _ _,
      Handle.events_of_invalid invalid⟩
  · intro b id w fuel plain found
    have mirrors : Handle.Mirrors {} id name b w.log w := ⟨found, rfl⟩
    exact mirrors.sent plain signals fuel
  · intro id w r s fuel found invalid
    refine ⟨r.state.refusal r.name s, ?_, LifecycleState.isError_refusal _ _ _⟩
    rw [Eval.run, Eval.signal, Eval.world_bind]
    simp only [found, invalid]
    rfl

/-- A backend is resumed after it was paused, and cannot be resumed once more. -/
theorem paused_before_resumed :
    let b : RecordingBackend := {}
    let signals : List Signal := [.start, .pause, .unpause]
    let past : List LifecycleEvent := [called ⟨.init, .void⟩, called ⟨.start, .void⟩,
      called ⟨.pause, .void⟩]
    b.IsPlain ∧ (worldOf b).resource? 0 = some ⟨"m", .created, .recording b⟩ ∧
      Handle.history (fun _ => b.response) "m" {} signals = past ++ [called ⟨.unpause, .void⟩] ∧
      IsDue .unpause past ∧
      ∃ u, (Eval.signalEach 0 signals).run 1 (worldOf b) = (.ok (), u) ∧
        u.resource? 0 = some ⟨"m", .running, .recording b⟩ ∧
        ∃ v, (Eval.signal 0 .unpause).run 0 u = (.ok v, u) ∧ v.isError := by
  intro b signals past
  have plain : b.IsPlain := ⟨rfl, rfl⟩
  have found : (worldOf b).resource? 0 = some ⟨"m", .created, .recording b⟩ := rfl
  have happened : Handle.history (fun _ => b.response) "m" {} signals =
      past ++ called ⟨.unpause, .void⟩ :: [] := rfl
  obtain ⟨-, due, -, engine, refused⟩ := hooks_called_where_due (fun _ => b.response) "m" signals
  obtain ⟨u, sent, mirrors⟩ := engine b 0 (worldOf b) 0 plain found
  have running : u.resource? 0 = some ⟨"m", .running, .recording b⟩ := mirrors.resource
  exact ⟨plain, found, happened, due past ⟨.unpause, .void⟩ [] happened, u, sent, running,
    refused 0 u _ .unpause 0 running rfl⟩

end ReactiveScript
