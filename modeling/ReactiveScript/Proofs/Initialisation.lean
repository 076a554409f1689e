import ReactiveScript.Proofs.Handles

/-!
# Initialisation

A backend is initialised when it is started for the first time, which is when the lifecycle is
still in its first state. A backend that is destroyed in that state leaves it for good, so that
starting it afterwards never initialises it. This is the only way round: apart from it every start
comes after an initialisation that did not fail, and no backend is initialised twice.
-/

namespace ReactiveScript

/-- The hook was called and did not fail. -/
def HookCall.Passes (c : HookCall) (hook : Hook) : Prop := c.hook = hook ∧ c.result.isError = false

def Initialised (calls : List HookCall) : Prop := ∃ c ∈ calls, c.Passes .init

def DestroyedUninitialised (calls : List HookCall) : Prop :=
  ∃ before c after, calls = before ++ c :: after ∧ c.Passes .destroy ∧ ¬ Initialised before

/-- What there must have been before a backend is started. -/
def Startable (calls : List HookCall) : Prop := Initialised calls ∨ DestroyedUninitialised calls

/-- No hook is called before the one that initialises, and none starts a backend too early. -/
def Orderly (calls : List HookCall) : Prop := ∀ before c after, calls = before ++ c :: after →
  (c.hook = .init → before = []) ∧ (c.hook = .start → Startable before)

section calls

variable {calls : List HookCall} {c : HookCall}

theorem Startable.concat (h : Startable calls) (c : HookCall) : Startable (calls ++ [c]) := by
  rcases h with ⟨d, hd, passes⟩ | ⟨before, d, after, rfl, passes, first⟩
  · exact .inl ⟨d, List.mem_append_left _ hd, passes⟩
  · exact .inr ⟨before, d, after ++ [c], by simp, passes, first⟩

theorem startable_of_init (passes : c.Passes .init) : Startable (calls ++ [c]) :=
  .inl ⟨c, List.mem_append_right _ (List.mem_singleton_self c), passes⟩

theorem startable_of_destroy (passes : c.Passes .destroy) : Startable (calls ++ [c]) := by
  by_cases h : Initialised calls
  · exact Startable.concat (.inl h) c
  · exact .inr ⟨calls, c, [], rfl, passes, h⟩

theorem orderly_nil : Orderly [] := by
  intro before c after h
  cases before <;> cases h

theorem Orderly.concat (h : Orderly calls) (init : c.hook = .init → calls = [])
    (start : c.hook = .start → Startable calls) : Orderly (calls ++ [c]) := by
  intro before d after split
  -- The call looked at is the new one or one of those before.
  rcases List.eq_nil_or_concat after with rfl | ⟨later, e, rfl⟩
  · obtain ⟨rfl, last⟩ := List.append_inj' split rfl
    cases last
    exact ⟨init, start⟩
  · have earlier : calls ++ [c] = (before ++ d :: later) ++ [e] := by simpa using split
    exact h before d later (List.append_inj' earlier rfl).1

theorem Orderly.concat_other (h : Orderly calls) (init : c.hook ≠ .init) (start : c.hook ≠ .start) :
    Orderly (calls ++ [c]) := h.concat (fun hc => absurd hc init) fun hc => absurd hc start

theorem Orderly.of_append {later : List HookCall} (h : Orderly (calls ++ later)) :
    Orderly calls := by
  intro before c after split
  apply h before c (after ++ later)
  rw [split, List.append_assoc, List.cons_append]

/-- A backend that was destroyed before it was initialised never is. -/
theorem Orderly.not_initialised (h : Orderly calls) (destroyed : DestroyedUninitialised calls) :
    ¬ Initialised calls := by
  rintro ⟨d, hd, passes⟩
  obtain ⟨front, back, hs⟩ := List.append_of_mem hd
  obtain rfl : front = [] := (h front d back hs).1 passes.1
  obtain ⟨before, c, after, hc, destroys, first⟩ := destroyed
  rw [hs] at hc
  -- The first call of all initialises, and so it comes before the one that destroys.
  cases before with
  | nil =>
    obtain ⟨rfl, -⟩ := List.cons.inj hc
    cases passes.1.symm.trans destroys.1
  | cons e before =>
    obtain ⟨rfl, -⟩ := List.cons.inj hc
    exact first ⟨d, List.mem_cons_self, passes⟩

end calls

namespace Handle

variable {answers : HookAnswers} {name : String} {h : Handle} {s : Signal}

/-- The invariant of a handle. -/
structure Sound (h : Handle) : Prop where
  untouched : h.state = .created → h.calls = []
  startable : h.state = .running ∨ h.state = .paused ∨ h.state = .stopped → Startable h.calls
  orderly : Orderly h.calls

theorem sound_new : Sound {} := ⟨fun _ => rfl, fun h => by simp at h, orderly_nil⟩

theorem transition?_ne_created {state target : LifecycleState}
    (valid : state.transition? s = some target) : target ≠ .created := by
  rintro rfl
  cases state <;> cases s <;> cases valid

/-- What has to be shown of the hooks that a signal calls. -/
theorem Sound.of_called {target : LifecycleState} {v : Value} {called : Handle}
    (valid : h.state.transition? s = some target)
    (call : h.callHooks answers .void (h.state.requests s) = (v, called))
    (orderly : Orderly called.calls)
    (passed : v.isError = false → target ≠ .failed → Startable called.calls) :
    (h.signal answers name s).2.Sound := by
  rw [signal_of_called valid call]
  cases failed : v.isError with
  | true => exact ⟨fun created => by simp at created, fun active => by simp at active, orderly⟩
  | false =>
    refine ⟨fun created => absurd created (transition?_ne_created valid), ?_, orderly⟩
    intro active
    apply passed failed
    rintro rfl
    simp at active

/-- What has to be shown of a signal that calls one hook. -/
theorem Sound.of_hook {target : LifecycleState} {r : Request}
    (valid : h.state.transition? s = some target) (requests : h.state.requests s = [r])
    (orderly : Orderly (h.calls ++ [⟨r.hook, answers h.calls r.hook⟩]))
    (passed : (answers h.calls r.hook).isError = false →
      Startable (h.calls ++ [⟨r.hook, answers h.calls r.hook⟩])) :
    (h.signal answers name s).2.Sound := by
  have call : h.callHooks answers .void [r] = _ := callHooks_single h .void r
  rw [← requests] at call
  exact .of_called valid call orderly fun passes _ => passed passes

/-- What has to be shown of a signal that calls a hook and, unless that fails, a second one. -/
theorem Sound.of_hooks {target : LifecycleState} {r r' : Request} {calls : List HookCall}
    (valid : h.state.transition? s = some target) (requests : h.state.requests s = [r, r'])
    (first : calls = h.calls ++ [⟨r.hook, answers h.calls r.hook⟩]) (orderly : Orderly calls)
    (next : ¬ (answers h.calls r.hook).isError →
      Orderly (calls ++ [⟨r'.hook, answers calls r'.hook⟩]) ∧
        ((answers calls r'.hook).isError = false →
          Startable (calls ++ [⟨r'.hook, answers calls r'.hook⟩]))) :
    (h.signal answers name s).2.Sound := by
  subst first
  by_cases failed : (answers h.calls r.hook).isError
  · have call : h.callHooks answers .void [r, r'] = _ := callHooks_cons_of_error failed .void [r']
    rw [← requests] at call
    exact .of_called valid call orderly fun passed => absurd (failed.symm.trans passed) nofun
  · have call : h.callHooks answers .void [r, r'] = _ :=
      (callHooks_cons_of_ok failed .void [r']).trans (callHooks_single _ _ r')
    rw [← requests] at call
    obtain ⟨later, passed⟩ := next failed
    exact .of_called valid call later fun passes _ => passed passes

/-- A signal that stops, pauses or resumes a backend. -/
theorem Sound.of_other (sound : h.Sound) {target : LifecycleState} {r : Request}
    (valid : h.state.transition? s = some target) (requests : h.state.requests s = [r])
    (active : h.state = .running ∨ h.state = .paused) (init : r.hook ≠ .init)
    (start : r.hook ≠ .start) : (h.signal answers name s).2.Sound := by
  have startable : Startable h.calls := by
    apply sound.startable
    rcases active with active | active
    · exact .inl active
    · exact .inr (.inl active)
  exact .of_hook valid requests (sound.orderly.concat_other init start) fun _ => startable.concat _

theorem Sound.start (sound : h.Sound) {target : LifecycleState}
    (valid : h.state.transition? .start = some target) :
    (h.signal answers name .start).2.Sound := by
  cases state : h.state with
  | created =>
    have requests : h.state.requests .start = [.init, .start] := by rw [state]; rfl
    have none := sound.untouched state
    have orderly : Orderly (h.calls ++ [⟨.init, answers h.calls .init⟩]) :=
      sound.orderly.concat (fun _ => none) nofun
    refine .of_hooks valid requests rfl orderly fun initialised => ?_
    have startable : Startable (h.calls ++ [⟨.init, answers h.calls .init⟩]) :=
      startable_of_init ⟨rfl, Bool.eq_false_iff.mpr initialised⟩
    exact ⟨orderly.concat nofun fun _ => startable, fun _ => startable.concat _⟩
  | stopped =>
    have requests : h.state.requests .start = [.start] := by rw [state]; rfl
    have startable := sound.startable (.inr (.inr state))
    exact .of_hook valid requests (sound.orderly.concat nofun fun _ => startable) fun _ =>
      startable.concat _
  | _ =>
    rw [state] at valid
    cases valid

theorem Sound.destroy (sound : h.Sound) {target : LifecycleState}
    (valid : h.state.transition? .destroy = some target) :
    (h.signal answers name .destroy).2.Sound := by
  -- However the backend is destroyed, it is startable afterwards.
  have destroyed {calls : List HookCall} (passed : (answers calls .destroy).isError = false) :
      Startable (calls ++ [⟨.destroy, answers calls .destroy⟩]) :=
    startable_of_destroy ⟨rfl, passed⟩
  by_cases active : h.state = .running ∨ h.state = .paused
  · have requests : h.state.requests .destroy = [.stop, .destroy] := if_pos active
    have orderly : Orderly (h.calls ++ [⟨.stop, answers h.calls .stop⟩]) :=
      sound.orderly.concat_other nofun nofun
    exact .of_hooks valid requests rfl orderly fun _ =>
      ⟨orderly.concat_other nofun nofun, destroyed⟩
  · have requests : h.state.requests .destroy = [.destroy] := if_neg active
    exact .of_hook valid requests (sound.orderly.concat_other nofun nofun) destroyed

/-- A signal keeps the invariant. -/
theorem Sound.signal (sound : h.Sound) (s : Signal) : (h.signal answers name s).2.Sound := by
  cases valid : h.state.transition? s with
  | none =>
    rw [signal_of_invalid valid]
    exact sound
  | some target =>
    cases s with
    | start => exact sound.start valid
    | destroy => exact sound.destroy valid
    | error =>
      have call : h.callHooks answers .void (h.state.requests .error) = (.void, h) := rfl
      refine .of_called valid call sound.orderly fun _ other => absurd ?_ other
      cases hs : h.state <;> rw [hs] at valid <;> cases valid <;> rfl
    | _ =>
      have active : h.state = .running ∨ h.state = .paused := by
        cases hs : h.state <;> rw [hs] at valid <;> simp [LifecycleState.transition?] at valid ⊢
      exact sound.of_other valid rfl active nofun nofun

theorem Sound.send (sound : h.Sound) (signals : List Signal) :
    (h.send answers name signals).Sound := by
  induction signals generalizing h with
  | nil => exact sound
  | cons s rest ih => exact ih (sound.signal s)

end Handle

/-- Whatever a backend answers, it is initialised by the very first call of a hook or never, and it
is started after an initialisation that did not fail unless it was destroyed before any. A resource
with a plain recording backend receives the calls of its handle. -/
theorem start_initialised_unless_destroyed (answers : HookAnswers) (name : String)
    (signals : List Signal) :
    (∀ before c after, (Handle.send answers name {} signals).calls = before ++ c :: after →
      (c.hook = .init → before = []) ∧
      (c.hook = .start → (Initialised before ↔ ¬ DestroyedUninitialised before))) ∧
    ∀ (b : RecordingBackend) (id : ResourceId) (w : World) (fuel : Nat), b.IsPlain →
      w.resource? id = some ⟨name, .created, .recording b⟩ →
      ∃ u, (Eval.signalEach id signals).run (fuel + 1) w = (.ok (), u) ∧
        (Handle.send (fun _ => b.response) name {} signals).Mirrors id name b w.log u := by
  constructor
  · intro before c after split
    have sound : (Handle.send answers name {} signals).Sound := Handle.sound_new.send signals
    have orderly := sound.orderly
    obtain ⟨first, startable⟩ := orderly before c after split
    refine ⟨first, fun start => ?_⟩
    rw [split] at orderly
    constructor
    · intro initialised destroyed
      exact orderly.of_append.not_initialised destroyed initialised
    · intro never
      rcases startable start with initialised | destroyed
      · exact initialised
      · exact absurd destroyed never
  · intro b id w fuel plain found
    have mirrors : Handle.Mirrors {} id name b w.log w := ⟨found, rfl⟩
    exact mirrors.sent plain signals fuel

/-- A world with a resource that no signal has reached yet. -/
def worldOf (b : RecordingBackend) : World :=
  { resources := #[⟨"m", .created, .recording b⟩] }

/-- A backend that fails its start has been initialised before. -/
theorem failed_start_initialised :
    let b : RecordingBackend := { failures := [(.start, "busy")] }
    b.IsPlain ∧ (worldOf b).resource? 0 = some ⟨"m", .created, .recording b⟩ ∧
      Initialised [⟨.init, b.response .init⟩] ∧
      ∃ u, (Eval.signalEach 0 [.start]).run 1 (worldOf b) = (.ok (), u) ∧
        u.resource? 0 = some ⟨"m", .failed, .recording b⟩ ∧
        u.log = [.hook .start "m" .none, .hook .init "m" .none] := by
  intro b
  have plain : b.IsPlain := ⟨rfl, rfl⟩
  have found : (worldOf b).resource? 0 = some ⟨"m", .created, .recording b⟩ := rfl
  have calls : (Handle.send (fun _ => b.response) "m" {} [.start]).calls =
      [⟨.init, b.response .init⟩] ++ ⟨.start, b.response .start⟩ :: [] := rfl
  obtain ⟨order, engine⟩ := start_initialised_unless_destroyed (fun _ => b.response) "m" [.start]
  obtain ⟨u, sent, mirrors⟩ := engine b 0 (worldOf b) 0 plain found
  refine ⟨plain, found, ?_, u, sent, mirrors.resource, mirrors.log⟩
  apply ((order _ _ _ calls).2 rfl).mpr
  rintro ⟨before, c, after, split, destroys, -⟩
  have hc : c ∈ [(⟨.init, b.response .init⟩ : HookCall)] := by
    rw [split]
    exact List.mem_append_right _ List.mem_cons_self
  obtain rfl := List.mem_singleton.mp hc
  cases destroys.1

/-- A backend that is destroyed first is started without ever being initialised. -/
theorem destroyed_started_uninitialised :
    let h := Handle.send (fun _ _ => .void) "m" {} [.destroy, .start]
    let u := ((Eval.signalEach 0 [.destroy, .start]).run 1 (worldOf {})).2
    h.state = .running ∧ u.log = [.hook .start "m" .none, .hook .destroy "m" .none] ∧
      ∃ before c after, h.calls = before ++ c :: after ∧ c.hook = .start ∧
        ¬ Initialised before := by
  refine ⟨rfl, rfl, [⟨.destroy, .void⟩], ⟨.start, .void⟩, [], rfl, rfl, ?_⟩
  rintro ⟨c, hc, passes⟩
  obtain rfl := List.mem_singleton.mp hc
  cases passes.1

end ReactiveScript
