import ReactiveScript.Proofs.ErrorRouting
import ReactiveScript.Proofs.Levels

/-!
# Outcomes of scripts

The statements of a script are forced in order, each in the world that those before it have left,
until one of them fails with an error that ends the script or none is left. What the script comes to
is a function of their outcomes alone, and the world in which it leaves everything is that of the
last statement that was forced.
-/

namespace ReactiveScript

open Eval

namespace Eval.Ends

variable {α : Type} {x : Eval α} {w w' w₁ : World} {r : Except EvalError α}

theorem settings (hx : x.Plain) (h : x.Ends w r w') : w'.settings = w.settings := by
  obtain ⟨fuel, h⟩ := h
  have kept := hx.settings_run fuel w
  rwa [h] at kept

end Eval.Ends

namespace World

/-- Ending the use of a scope changes the context, and may add to the log. -/
theorem popScope_frame (w : World) (s : ScopeId) : ∃ (context : Context) (log : List Event),
    w.popScope s = { w with context := context, log := log ++ w.log } := by
  unfold popScope
  split
  · exact ⟨_, [], rfl⟩
  · rw [report]
    split
    · exact ⟨_, [_], rfl⟩
    · exact ⟨_, [], rfl⟩

end World

theorem Value.asError?_eq_some_iff {v : Value} {e : EvalError} :
    v.asError? = some e ↔ v.untagged = .error e := by
  rw [asError?]
  split
  · next f found => rw [found, Option.some_inj, Value.error.injEq]
  · next other => exact iff_of_false nofun (other e)

/-- A failure ends a script, because it is fatal or because the settings say so. -/
def EvalError.EndsScript (e : EvalError) (c : Settings) : Prop := c.failFast ∨ e.isFatal

namespace Script

/-- The failures among outcomes, in their order. -/
def failures (outcomes : List (Except EvalError Value)) : List EvalError :=
  outcomes.filterMap fun
    | .ok _ => none
    | .error e => some e

/-- The last value among outcomes, if there is one, and void otherwise. -/
def lastValue (outcomes : List (Except EvalError Value)) : Value :=
  (outcomes.filterMap Except.toOption).getLast?.getD .void

/-- What outcomes come to: the last value if there is no failure, and otherwise the first failure,
with the later ones behind its own causes. -/
def summary (outcomes : List (Except EvalError Value)) : Except EvalError Value :=
  match failures outcomes with
  | [] => .ok (lastValue outcomes)
  | first :: later => .error { first with causes := first.causes ++ later }

/-- No failure among outcomes ends a script. -/
def GoOn (c : Settings) (outcomes : List (Except EvalError Value)) : Prop :=
  ∀ e ∈ failures outcomes, ¬ e.EndsScript c

variable {c : Settings} {outcomes done : List (Except EvalError Value)}
  {o r s : Except EvalError Value} {statement v : Value} {statements later left : List Value}
  {e : EvalError} {u w w' : World} {root : ScopeId}

theorem outcomeOf_eq_error_iff :
    outcomeOf r = .error e ↔ r = .error e ∨ ∃ v : Value, r = .ok v ∧ v.untagged = .error e := by
  cases r with
  | error f => simp [outcomeOf]
  | ok u => cases left : u.asError? <;> simp [outcomeOf, left, ← Value.asError?_eq_some_iff]

theorem outcomeOf_eq_ok_iff :
    outcomeOf r = .ok v ↔ r = .ok v ∧ ∀ e : EvalError, v.untagged ≠ .error e := by
  simp only [ne_eq, ← Value.asError?_eq_some_iff]
  cases r with
  | error f => simp [outcomeOf]
  | ok u =>
    cases left : u.asError? with
    | none =>
      simp only [outcomeOf, left]
      refine ⟨fun h => ⟨h, ?_⟩, And.left⟩
      cases h
      simp [left]
    | some f =>
      simp only [outcomeOf, left]
      refine iff_of_false (fun h => by cases h) fun h => ?_
      obtain ⟨same, without⟩ := h
      cases same
      exact without f left

theorem failures_append (first second : List (Except EvalError Value)) :
    failures (first ++ second) = failures first ++ failures second := List.filterMap_append

theorem failures_append_ok (outcomes : List (Except EvalError Value)) (v : Value) :
    failures (outcomes ++ [.ok v]) = failures outcomes :=
  (failures_append _ _).trans (List.append_nil _)

theorem failures_append_error (outcomes : List (Except EvalError Value)) (e : EvalError) :
    failures (outcomes ++ [.error e]) = failures outcomes ++ [e] := failures_append _ _

theorem lastValue_append_ok (outcomes : List (Except EvalError Value)) (v : Value) :
    lastValue (outcomes ++ [.ok v]) = v := by
  simp [lastValue, Except.toOption]

theorem lastValue_append_error (outcomes : List (Except EvalError Value)) (e : EvalError) :
    lastValue (outcomes ++ [.error e]) = lastValue outcomes := by
  simp [lastValue, Except.toOption]

theorem goOn_append (first second : List (Except EvalError Value)) :
    GoOn c (first ++ second) ↔ GoOn c first ∧ GoOn c second := by
  rw [GoOn, failures_append, List.forall_mem_append]
  rfl

theorem goOn_ok (c : Settings) (v : Value) : GoOn c [.ok v] := fun _ h => nomatch h

theorem goOn_error : GoOn c [.error e] ↔ ¬ e.EndsScript c := List.forall_mem_singleton

theorem exists_of_not_goOn (h : ¬ GoOn c [o]) : ∃ e : EvalError, o = .error e ∧ e.EndsScript c := by
  cases o with
  | ok v => exact absurd (goOn_ok c v) h
  | error e => exact ⟨e, rfl, not_not.mp fun goesOn => h (goOn_error.mpr goesOn)⟩

theorem foldl_withCause (first : EvalError) (later : List EvalError) :
    later.foldl EvalError.withCause first = { first with causes := first.causes ++ later } := by
  induction later generalizing first with
  | nil =>
    cases first
    simp
  | cons e rest ih => simp [ih, EvalError.withCause]

/-- A script without further statements ends with what the outcomes come to. -/
theorem conclude_eq (outcomes : List (Except EvalError Value)) :
    conclude (lastValue outcomes) (failures outcomes) = ofExcept (summary outcomes) := by
  rw [summary]
  cases failures outcomes with
  | nil => rfl
  | cons first later => rw [conclude, foldl_withCause]; rfl

/-- The outcome of the statement with an index is noted: a failure is reported. -/
def noted (index : Nat) (u : World) : Except EvalError Value → World
  | .ok _ => u
  | .error e => u.report .error ("unhandled error: " ++ e.report) [("statement", Text.ofNat index)]

theorem settings_noted (index : Nat) (u : World) (o : Except EvalError Value) :
    (noted index u o).settings = u.settings := by
  cases o with
  | ok v => rfl
  | error e => exact (u.sameFrame_report _ _ _).settings

namespace Progress

/-- How far a script has come when some statements have had outcomes. -/
def after (done : List (Except EvalError Value)) (u : World) : Progress where
  index := done.length
  last := lastValue done
  failures := Script.failures done
  world := u

theorem forced_plain (p : Progress) (statement : Value) : (p.forced statement).Plain :=
  .holding _ (Protocol.force _ statement 1).routine

/-- A script goes on after an outcome of the next statement. -/
def advance (p : Progress) (u : World) : Except EvalError Value → Progress
  | .ok v => ⟨p.index + 1, v, p.failures, u⟩
  | .error e => ⟨p.index + 1, p.last, p.failures ++ [e], noted p.index u (.error e)⟩

theorem advance_after (done : List (Except EvalError Value)) (u w : World)
    (o : Except EvalError Value) : (after done u).advance w o =
      after (done ++ [o]) (noted done.length w o) := by
  cases o with
  | ok v => simp [advance, after, noted, lastValue_append_ok, failures_append_ok]
  | error e => simp [advance, after, noted, lastValue_append_error, failures_append_error]

/-- What a script does after an outcome of the next statement. -/
def next (p : Progress) (later : List Value) : Except EvalError Value → Eval Value
  | .ok v => runFrom (p.index + 1) v p.failures later
  | .error e => do
    Eval.report .error ("unhandled error: " ++ e.report) [("statement", Text.ofNat p.index)]
    if p.world.settings.failFast || e.isFatal then raise e
    else runFrom (p.index + 1) p.last (p.failures ++ [e]) later

/-- A script ends with the failure of the next statement, or goes on. -/
theorem next_iff {p : Progress} : (p.next later o).Ends w s w' ↔
    (∃ e : EvalError, o = .error e ∧ e.EndsScript p.world.settings ∧ s = .error e ∧
      w' = noted p.index w o) ∨
    GoOn p.world.settings [o] ∧ ((p.advance w o).rest later).Ends (p.advance w o).world s w' := by
  cases o with
  | ok v => simp [goOn_ok, next, advance, rest]
  | error e =>
    have reported : (Eval.report .error ("unhandled error: " ++ e.report)
        [("statement", Text.ofNat p.index)]).Ends w (.ok ()) (noted p.index w (.error e)) :=
      .of_apply fun _ => rfl
    have continues (_ : Unit) : (if p.world.settings.failFast || e.isFatal then raise e
        else runFrom (p.index + 1) p.last (p.failures ++ [e]) later).Plain := by
      split
      · exact .raise _
      · exact (Protocol.runFrom _ _ _ later).routine
    rw [next, Ends.bind_iff (Protocol.report _ _ _).routine continues reported]
    by_cases stops : e.EndsScript p.world.settings
    · have fails : (p.world.settings.failFast || e.isFatal) = true := by
        simpa [EvalError.EndsScript] using stops
      rw [if_pos fails, Ends.iff_eq (.raise e) (.raise e _)]
      simp [goOn_error, stops]
    · have passes : ¬ (p.world.settings.failFast || e.isFatal) = true := by
        simpa [EvalError.EndsScript] using stops
      rw [if_neg passes]
      simp [goOn_error, stops, advance, rest]

theorem rest_cons_iff {p : Progress} : (p.rest (statement :: later)).Ends p.world s w' ↔
    ∃ r u, (p.forced statement).Ends p.world r u ∧ (p.next later (outcomeOf r)).Ends u s w' := by
  constructor
  · intro h
    have looked : (Eval.attempt (p.forced statement) >>= fun r => p.next later (outcomeOf r)).Ends
      p.world s w' := h
    obtain ⟨e, failed, -⟩ | ⟨r, u, attempted, later⟩ := looked.bind_cases
    · obtain ⟨r, impossible, -⟩ := failed.attempt_cases
      cases impossible
    · obtain ⟨r, same, ends⟩ := attempted.attempt_cases
      cases same
      exact ⟨r, u, ends, later⟩
  · rintro ⟨r, u, ends, h⟩
    exact rest_cons ends h

end Progress

/-- Statements are forced one after the other, behind those that have had outcomes already: each
once, while the last value so far is held, and in the world that is left when the one before it has
ended and its failure is reported. -/
inductive Forced : List (Except EvalError Value) → World → List Value →
    List (Except EvalError Value) → World → Prop where
  | nil (done : List (Except EvalError Value)) (u : World) : Forced done u [] [] u
  | cons {done outcomes : List (Except EvalError Value)} {statement : Value} {rest : List Value}
      {r : Except EvalError Value} {u v w : World}
      (first : ((Progress.after done u).forced statement).Ends u r v)
      (later : Forced (done ++ [outcomeOf r]) (noted done.length v (outcomeOf r)) rest outcomes w) :
      Forced done u (statement :: rest) (outcomeOf r :: outcomes) w

/-- What a script comes to by the outcomes of the statements that were forced, while others may be
left: if none is left and none has ended the script, what the outcomes come to; and if the last one
has ended the script, its failure. -/
inductive Concludes (c : Settings) :
    List Value → List (Except EvalError Value) → Except EvalError Value → Prop where
  | through {outcomes : List (Except EvalError Value)} (all : GoOn c outcomes) :
      Concludes c [] outcomes (summary outcomes)
  | stopped {left : List Value} {before : List (Except EvalError Value)} {e : EvalError}
      (others : GoOn c before) (stops : e.EndsScript c) :
      Concludes c left (before ++ [.error e]) (.error e)

theorem mem_failures : e ∈ failures outcomes ↔ .error e ∈ outcomes := by
  simp only [failures, List.mem_filterMap]
  refine ⟨?_, fun h => ⟨_, h, rfl⟩⟩
  rintro ⟨_ | v, h, same⟩ <;> cases same
  exact h

namespace Concludes

theorem iff_of_goOn (all : GoOn c outcomes) :
    Concludes c left outcomes s ↔ left = [] ∧ s = summary outcomes := by
  refine ⟨fun h => ?_, ?_⟩
  · cases h with
    | through _ => exact ⟨rfl, rfl⟩
    | stopped _ stops => exact absurd stops (goOn_error.mp ((goOn_append _ _).mp all).2)
  · rintro ⟨rfl, rfl⟩
    exact .through all

/-- A failure that ends a script is the last outcome. -/
theorem of_stops {before after : List (Except EvalError Value)} (stops : e.EndsScript c)
    (h : Concludes c left (before ++ .error e :: after) s) : after = [] ∧ s = .error e := by
  generalize he : before ++ .error e :: after = outcomes at h
  cases h with
  | through all =>
    subst he
    exact absurd stops (all e (mem_failures.mpr (List.mem_append_right _ List.mem_cons_self)))
  | @stopped _ others f all stops' =>
    obtain rfl | ⟨after, o, rfl⟩ := after.eq_nil_or_concat
    · obtain ⟨-, same⟩ := List.append_inj' he rfl
      cases same
      exact ⟨rfl, rfl⟩
    · rw [List.concat_eq_append, ← List.cons_append, ← List.append_assoc] at he
      obtain ⟨rfl, -⟩ := List.append_inj' he rfl
      exact absurd stops (all e (mem_failures.mpr (List.mem_append_right _ List.mem_cons_self)))

end Concludes

/-- A script of which no statement is left ends with what the outcomes come to. -/
theorem rest_nil (done : List (Except EvalError Value)) (u : World) :
    ((Progress.after done u).rest []).Ends u (summary done) u := by
  show (conclude (lastValue done) (failures done)).Ends u _ u
  rw [conclude_eq]
  exact .ofExcept _ u

theorem settings_forced {v : World} (ends : ((Progress.after done u).forced statement).Ends u r v) :
    (noted done.length v (outcomeOf r)).settings = u.settings :=
  (settings_noted _ _ _).trans (ends.settings (Progress.forced_plain _ _))

/-- The next statement is forced, and its failure ends the script or the script goes on. -/
theorem rest_after_iff : ((Progress.after done u).rest (statement :: later)).Ends u s w' ↔
    ∃ r v, ((Progress.after done u).forced statement).Ends u r v ∧
      ((∃ e : EvalError, outcomeOf r = .error e ∧ e.EndsScript u.settings ∧ s = .error e ∧
        w' = noted done.length v (outcomeOf r)) ∨
        GoOn u.settings [outcomeOf r] ∧
          ((Progress.after (done ++ [outcomeOf r]) (noted done.length v (outcomeOf r))).rest
            later).Ends (noted done.length v (outcomeOf r)) s w') := by
  refine (Progress.rest_cons_iff (p := .after done u)).trans (exists_congr fun r =>
    exists_congr fun v => and_congr_right fun _ => ?_)
  rw [Progress.next_iff, Progress.advance_after]
  rfl

/-- The first ones of some further statements are forced, and their outcomes say the result. -/
def Concluded (c : Settings) (done : List (Except EvalError Value)) (u : World)
    (statements : List Value) (s : Except EvalError Value) (w' : World) : Prop :=
  ∃ forced left outcomes, statements = forced ++ left ∧ Forced done u forced outcomes w' ∧
    Concludes c left (done ++ outcomes) s

theorem concluded_nil_iff (all : GoOn c done) :
    Concluded c done u [] s w' ↔ s = summary done ∧ w' = u := by
  constructor
  · rintro ⟨forced, left, outcomes, split, h, concludes⟩
    obtain ⟨rfl, rfl⟩ := List.nil_eq_append_iff.mp split
    cases h
    rw [List.append_nil, Concludes.iff_of_goOn all] at concludes
    exact ⟨concludes.2, rfl⟩
  · rintro ⟨rfl, rfl⟩
    refine ⟨[], [], [], rfl, .nil _ _, ?_⟩
    rw [List.append_nil]
    exact .through all

/-- The next statement is forced in any case, and unless it ends the script, so are further ones. -/
theorem concluded_cons_iff (all : GoOn c done) :
    Concluded c done u (statement :: later) s w' ↔
      ∃ r v, ((Progress.after done u).forced statement).Ends u r v ∧
        ((∃ e : EvalError, outcomeOf r = .error e ∧ e.EndsScript c ∧ s = .error e ∧
          w' = noted done.length v (outcomeOf r)) ∨
        GoOn c [outcomeOf r] ∧ Concluded c (done ++ [outcomeOf r])
          (noted done.length v (outcomeOf r)) later s w') := by
  constructor
  · rintro ⟨forced, left, outcomes, split, h, concludes⟩
    cases h with
    | nil =>
      rw [List.append_nil, Concludes.iff_of_goOn all] at concludes
      cases split.trans concludes.1
    | @cons _ outcomes _ forced r _ v _ ends h =>
      cases split
      refine ⟨r, v, ends, ?_⟩
      by_cases goesOn : GoOn c [outcomeOf r]
      · rw [List.append_cons] at concludes
        exact .inr ⟨goesOn, forced, left, outcomes, rfl, h, concludes⟩
      · obtain ⟨e, outcome, stops⟩ := exists_of_not_goOn goesOn
        rw [outcome] at concludes
        obtain ⟨rfl, rfl⟩ := concludes.of_stops stops
        cases h
        exact .inl ⟨e, outcome, stops, rfl, rfl⟩
  · rintro ⟨r, v, ends, ⟨e, outcome, stops, rfl, rfl⟩ | ⟨-, forced, left, outcomes, rfl, h, result⟩⟩
    · refine ⟨[statement], later, [outcomeOf r], rfl, .cons ends (.nil _ _), ?_⟩
      rw [outcome]
      exact .stopped all stops
    · rw [← List.append_cons] at result
      exact ⟨statement :: forced, left, outcomeOf r :: outcomes, rfl, .cons ends h, result⟩

/-- From any point on, a script ends exactly as the outcomes of its further statements say. -/
theorem rest_iff (hc : u.settings = c) (all : GoOn c done) :
    ((Progress.after done u).rest statements).Ends u s w' ↔ Concluded c done u statements s w' := by
  induction statements generalizing done u with
  | nil =>
    have plain : ((Progress.after done u).rest []).Plain := (Protocol.runFrom _ _ _ []).routine
    rw [Ends.iff_eq plain (rest_nil done u), concluded_nil_iff all]
  | cons statement later ih =>
    subst hc
    rw [rest_after_iff, concluded_cons_iff all]
    refine exists_congr fun r => exists_congr fun v => and_congr_right fun ends =>
      or_congr_right (and_congr_right fun goesOn => ?_)
    exact ih (settings_forced ends) ((goOn_append _ _).mpr ⟨all, goesOn⟩)

/-- From any point on, a script ends unless one of the statements does not. -/
theorem rest_ends (hc : u.settings = c) (all : GoOn c done) :
    (∃ s w', ((Progress.after done u).rest statements).Ends u s w') ∨
      ∃ forced statement left outcomes w, statements = forced ++ statement :: left ∧
        Forced done u forced outcomes w ∧ GoOn c (done ++ outcomes) ∧
        ∀ r v, ¬ ((Progress.after (done ++ outcomes) w).forced statement).Ends w r v := by
  induction statements generalizing done u with
  | nil => exact .inl ⟨_, _, rest_nil done u⟩
  | cons statement later ih =>
    subst hc
    by_cases ended : ∃ r v, ((Progress.after done u).forced statement).Ends u r v
    · obtain ⟨r, v, ends⟩ := ended
      by_cases goesOn : GoOn u.settings [outcomeOf r]
      · obtain ⟨s, w', rest⟩ | ⟨forced, statement', left, outcomes, w, rfl, h, goOn, never⟩ :=
          ih (settings_forced ends) ((goOn_append _ _).mpr ⟨all, goesOn⟩)
        · exact .inl ⟨s, w', rest_after_iff.mpr ⟨r, v, ends, .inr ⟨goesOn, rest⟩⟩⟩
        · rw [← List.append_cons] at goOn never
          exact .inr ⟨statement :: forced, statement', left, outcomeOf r :: outcomes, w, rfl,
            .cons ends h, goOn, never⟩
      · obtain ⟨e, outcome, stops⟩ := exists_of_not_goOn goesOn
        exact .inl ⟨_, _, rest_after_iff.mpr ⟨r, v, ends, .inl ⟨e, outcome, stops, rfl, rfl⟩⟩⟩
    · refine .inr ⟨[], statement, later, [], u, rfl, .nil _ _, ?_, fun r v ends => ended ⟨r, v, ?_⟩⟩
      · rwa [List.append_nil]
      · rwa [List.append_nil] at ends

/-- A script is over: its root scope is left, and its statements are not held any more. -/
def ended (root : ScopeId) (w u : World) : World :=
  ({ u with inUse := w.inUse } : World).popScope root

theorem ended_frame (root : ScopeId) (w u : World) : ∃ (context : Context) (log : List Event),
    ended root w u = { u with context := context, inUse := w.inUse, log := log ++ u.log } :=
  World.popScope_frame _ root

/-- A script runs all its statements from the first one on, in its root scope. -/
theorem run_iff : (run root statements).Ends w s w' ↔
    ∃ u, ((Progress.start root statements w).rest statements).Ends
      (Progress.start root statements w).world s u ∧ w' = ended root w u := by
  have brackets : run root statements = Eval.bracket
      (fun w => w.modifyContext fun c => c.push root) (fun _ u => u.popScope root)
      (Eval.bracket (fun w => { w with inUse := heldByItems statements ++ w.inUse })
        (fun w u => { u with inUse := w.inUse })
        (runFrom 0 .void [] statements)) := rfl
  rw [brackets]
  simp only [Ends.bracket_iff]
  constructor
  · rintro ⟨_, ⟨u, ends, rfl⟩, rfl⟩
    exact ⟨u, ends, rfl⟩
  · rintro ⟨u, ends, rfl⟩
    exact ⟨_, ⟨u, ends, rfl⟩, rfl⟩

end Script

/-- What a script comes to. A statement has failed if it raises an error or leaves one as its value.
The statements are forced in order, each once, up to the first failure that is fatal, or up to the
first one at all if the settings say so: this is then the error of the script, and nothing after it
is forced. Otherwise all statements are forced, and the script ends with the last value, or with the
first failure and the later ones behind its causes. In any case everything stays as the statements
have left it but for the context, what is held, and the log, which keeps all that is in it. A script
ends unless the forcing of a statement does not. -/
theorem script_folds_outcomes (root : ScopeId) (statements : List Value) (w : World) :
    let start := (Script.Progress.start root statements w).world
    (∀ r e, Script.outcomeOf r = .error e ↔
      r = .error e ∨ ∃ v : Value, r = .ok v ∧ v.untagged = .error e) ∧
    (∀ r v, Script.outcomeOf r = .ok v ↔ r = .ok v ∧ ∀ e : EvalError, v.untagged ≠ .error e) ∧
    (∀ s w', (Script.run root statements).Ends w s w' ↔
      ∃ forced left outcomes u, statements = forced ++ left ∧
        Script.Forced [] start forced outcomes u ∧ Script.Concludes w.settings left outcomes s ∧
        w' = Script.ended root w u) ∧
    (∀ u, ∃ (context : Context) (log : List Event), Script.ended root w u =
      { u with context := context, inUse := w.inUse, log := log ++ u.log }) ∧
    ((∃ s w', (Script.run root statements).Ends w s w') ∨
      ∃ forced statement left outcomes u, statements = forced ++ statement :: left ∧
        Script.Forced [] start forced outcomes u ∧ Script.GoOn w.settings outcomes ∧
        ∀ r v, ¬ ((Script.Progress.after outcomes u).forced statement).Ends u r v) := by
  intro start
  have settings : start.settings = w.settings := rfl
  have first : Script.GoOn w.settings [] := fun _ h => nomatch h
  refine ⟨fun r e => Script.outcomeOf_eq_error_iff, fun r v => Script.outcomeOf_eq_ok_iff,
    fun s w' => ?_, Script.ended_frame root w, ?_⟩
  · have whole (u : World) : ((Script.Progress.start root statements w).rest statements).Ends start
        s u ↔ Script.Concluded w.settings [] start statements s u := Script.rest_iff settings first
    rw [Script.run_iff]
    constructor
    · rintro ⟨u, ends, rfl⟩
      obtain ⟨forced, left, outcomes, split, h, concludes⟩ := (whole u).mp ends
      exact ⟨forced, left, outcomes, u, split, h, concludes, rfl⟩
    · rintro ⟨forced, left, outcomes, u, split, h, concludes, rfl⟩
      exact ⟨u, (whole u).mpr ⟨forced, left, outcomes, split, h, concludes⟩, rfl⟩
  · refine (Script.rest_ends settings first).imp_left ?_
    rintro ⟨s, u, ends⟩
    exact ⟨s, _, Script.run_iff.mpr ⟨u, ends, rfl⟩⟩

/-- A script with a node that fails, in which no scope has a handler. -/
def unguardedWorld (failFast : Bool) : World where
  settings := { Settings.default with failFast }
  nodes := guardedWorld.nodes.pop
  scopes := #[{ name := "script", parent := none }]

/-- The first statement raises an error, the second one leaves one as its value, and the third one
has a value: all three are forced, or only the first one. -/
theorem failures_collected_unless_fail_fast :
    let raised := EvalError.exception "failed"
    let left := EvalError.exception "left"
    let statements : List Value := [.node ⟨1, "fail"⟩, .error left, .int 3]
    (∃ w, (Script.run 0 statements).Ends (unguardedWorld false)
      (.error { raised with causes := [left] }) w) ∧
    (∃ w, (Script.run 0 statements).Ends (unguardedWorld true) (.error raised) w) := by
  intro raised left statements
  let start (failFast : Bool) : World :=
    (Script.Progress.start 0 statements (unguardedWorld failFast)).world
  have failed (failFast : Bool) : ∃ v, ((Script.Progress.after [] (start failFast)).forced
      (.node ⟨1, "fail"⟩)).Ends (start failFast) (.error raised) v := ⟨_, 1, rfl⟩
  have constant (v : Value) (done : List (Except EvalError Value)) (u : World)
      (plain : force u.settings.parallel v 1 = pure v) :
      ((Script.Progress.after done u).forced v).Ends u (.ok v) u := by
    have held : (holding (Script.lastValue done).held (pure v)).Ends u (.ok v) u := ⟨0, rfl⟩
    rwa [← plain] at held
  constructor
  · obtain ⟨-, -, folds, -⟩ := script_folds_outcomes 0 statements (unguardedWorld false)
    obtain ⟨v, failed⟩ := failed false
    have mild : ∀ e ∈ [raised, left], ¬ e.EndsScript (unguardedWorld false).settings := by
      rintro e he (stops | fatal)
      · cases stops
      · exact absurd fatal (by revert e; decide)
    exact ⟨_, (folds _ _).mpr ⟨statements, [], [.error raised, .error left, .ok (.int 3)], _, rfl,
      .cons failed (.cons (constant (.error left) _ _ rfl) (.cons (constant (.int 3) _ _ rfl)
        (.nil _ _))), .through mild, rfl⟩⟩
  · obtain ⟨-, -, folds, -⟩ := script_folds_outcomes 0 statements (unguardedWorld true)
    obtain ⟨v, failed⟩ := failed true
    have stopped : Script.Concludes (unguardedWorld true).settings [.error left, .int 3]
        ([] ++ [.error raised]) (.error raised) := .stopped (fun _ h => nomatch h) (.inl rfl)
    exact ⟨_, (folds _ _).mpr ⟨[.node ⟨1, "fail"⟩], [.error left, .int 3], [.error raised], _, rfl,
      .cons failed (.nil _ _), stopped, rfl⟩⟩

end ReactiveScript
