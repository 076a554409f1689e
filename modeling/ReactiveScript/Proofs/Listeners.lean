import Mathlib.Data.List.Permutation
import ReactiveScript.Proofs.Declarations
import ReactiveScript.Proofs.Ledger

/-!
# Listeners of variables

A callback on a variable is kept in one scope, its home: the scope that has the variable when the
callback is registered, or the one it is registered through if none has it. It is called by exactly
the sets whose target is the home, and what is declared later does not move it. So a registration is
undone exactly if the name still resolves to the home when the callback is taken off.
-/

namespace ReactiveScript

open Eval

namespace OrderedMap

variable {α : Type} {m : OrderedMap α} {key key' : String} {v : α}

/-- The entries under a key; there is at most one if keys are unique. -/
def entriesOf (m : OrderedMap α) (key : String) : OrderedMap α := m.filter fun e => e.1 = key

theorem entriesOf_eq_nil (h : key ∉ m.keys) : m.entriesOf key = [] := by
  refine List.filter_eq_nil_iff.mpr fun e he => ?_
  have other : e.1 ≠ key := fun hk => h (hk ▸ List.mem_map_of_mem he)
  simpa using other

theorem entriesOf_insert_self (h : m.UniqueKeys) : (m.insert key v).entriesOf key = [(key, v)] := by
  induction m with
  | nil => simp [insert, entriesOf]
  | cons e rest ih =>
    obtain ⟨k, u⟩ := e
    obtain ⟨fresh, unique⟩ := List.nodup_cons.mp h
    by_cases hk : k = key
    · subst hk
      have none : entriesOf rest k = [] := entriesOf_eq_nil fresh
      simpa [insert, entriesOf] using none
    · simpa [insert, entriesOf, hk] using ih unique

theorem entriesOf_insert_of_ne (h : key ≠ key') :
    (m.insert key v).entriesOf key' = m.entriesOf key' := by
  induction m with
  | nil => simp [insert, entriesOf, h]
  | cons e rest ih =>
    obtain ⟨k, u⟩ := e
    by_cases hk : k = key
    · subst hk
      simp [insert, entriesOf, h]
    · by_cases hk' : k = key'
      · subst hk'
        simpa [insert, entriesOf, hk] using ih
      · simpa [insert, entriesOf, hk, hk'] using ih

theorem entriesOf_erase_self : (m.erase key).entriesOf key = [] := by
  refine List.filter_eq_nil_iff.mpr fun e he => ?_
  simpa using (List.mem_filter.mp he).2

theorem entriesOf_erase_of_ne (h : key ≠ key') :
    (m.erase key).entriesOf key' = m.entriesOf key' := by
  simp only [erase, entriesOf, List.filter_filter]
  refine List.filter_congr fun e _ => ?_
  by_cases he : e.1 = key' <;> simp [he, Ne.symm h]

end OrderedMap

namespace ScopeTable

variable {t : ScopeTable} {s u : ScopeId} {name name' key : String} {callback : Callback}

theorem targetOf_lt_size (hs : s < t.size) (name : String) : t.targetOf s name < t.size := by
  unfold targetOf
  cases hd : t.declaring? s name with
  | none => exact hs
  | some u =>
    obtain ⟨b, hb⟩ := Option.isSome_iff_exists.mp (List.find?_some (p := fun s => t.hasLocal s name) hd)
    exact lt_size_of_localBinding? hb

theorem registered_listen (t : ScopeTable) (s u : ScopeId) (name name' key : String)
    (callback : Callback) :
    ScopeTable.registered (t.modify s fun scope => scope.listen name key callback) u name' =
      if s = u ∧ name = name' ∧ s < t.size then (t.registered u name').insert key callback
      else t.registered u name' := by
  simp only [registered, Array.getElem?_modify]
  by_cases hs : s = u
  · subst hs
    cases ht : t[s]? with
    | none => simp [Nat.not_lt.mpr (Array.getElem?_eq_none_iff.mp ht)]
    | some scope =>
      obtain ⟨lt, -⟩ := Array.getElem?_eq_some_iff.mp ht
      by_cases hn : name = name'
      · subst hn
        simp [lt, Scope.listen, OrderedMap.find?_insert]
      · simp [hn, Scope.listen, OrderedMap.find?_insert]
  · simp [hs]

theorem registered_unlisten (t : ScopeTable) (s u : ScopeId) (name name' key : String) :
    ScopeTable.registered (t.modify s fun scope => scope.unlisten name key) u name' =
      if s = u ∧ name = name' then (t.registered u name').erase key else t.registered u name' := by
  have nothing : OrderedMap.erase key ([] : OrderedMap Callback) = [] := rfl
  simp only [registered, Array.getElem?_modify]
  by_cases hs : s = u
  · subst hs
    cases ht : t[s]? with
    | none => simp [nothing]
    | some scope =>
      cases hf : scope.listeners.find? name with
      | none =>
        by_cases hn : name = name'
        · subst hn
          simp [Scope.unlisten, hf, nothing]
        · simp [Scope.unlisten, hf, hn]
      | some callbacks =>
        by_cases hn : name = name'
        · subst hn
          simp [Scope.unlisten, hf, OrderedMap.find?_insert]
        · simp [Scope.unlisten, hf, hn, OrderedMap.find?_insert]
  · simp [hs]

end ScopeTable

/-- The callback of a variable that is kept in a scope under a key, as a map of one entry or none. -/
def World.registeredAs (w : World) (s : ScopeId) (name key : String) : OrderedMap Callback :=
  (w.scopes.registered s name).entriesOf key

/-- A callback of a variable is registered or taken off under a key. -/
def Occurrence.Touches (name key : String) : Occurrence → Prop
  | .listened _ name' key' _ => name' = name ∧ key' = key
  | .unlistened _ name' key' => name' = name ∧ key' = key
  | _ => False

namespace World

variable {w : World} {s u : ScopeId} {name key name' key' : String} {callback : Callback}

theorem registeredAs_listened (hs : s < w.scopes.size)
    (unique : (w.scopes.registered (w.scopes.targetOf s name) name).UniqueKeys) (u : ScopeId) :
    (w.listened s name key callback).registeredAs u name key =
      if u = w.scopes.targetOf s name then [(key, callback)] else w.registeredAs u name key := by
  have home := ScopeTable.targetOf_lt_size hs name
  simp only [registeredAs, listened, modifyScope, ScopeTable.registered_listen]
  by_cases hu : u = w.scopes.targetOf s name
  · subst hu
    rw [if_pos ⟨rfl, trivial, home⟩, if_pos rfl]
    exact OrderedMap.entriesOf_insert_self unique
  · rw [if_neg fun h => hu h.1.symm, if_neg hu]

theorem registeredAs_listened_of_ne (h : ¬ (name' = name ∧ key' = key)) (u : ScopeId) :
    (w.listened s name' key' callback).registeredAs u name key = w.registeredAs u name key := by
  simp only [registeredAs, listened, modifyScope, ScopeTable.registered_listen]
  split
  · next hn => exact OrderedMap.entriesOf_insert_of_ne fun hk => h ⟨hn.2.1, hk⟩
  · rfl

theorem registeredAs_unlistened (u : ScopeId) :
    (w.unlistened s name key).registeredAs u name key =
      if u = w.scopes.targetOf s name then [] else w.registeredAs u name key := by
  simp only [registeredAs, unlistened, modifyScope, ScopeTable.registered_unlisten]
  by_cases hu : u = w.scopes.targetOf s name
  · subst hu
    simp [OrderedMap.entriesOf_erase_self]
  · simp [hu, Ne.symm hu]

theorem registeredAs_unlistened_of_ne (h : ¬ (name' = name ∧ key' = key)) (u : ScopeId) :
    (w.unlistened s name' key').registeredAs u name key = w.registeredAs u name key := by
  simp only [registeredAs, unlistened, modifyScope, ScopeTable.registered_unlisten]
  split
  · next hn => exact OrderedMap.entriesOf_erase_of_ne fun hk => h ⟨hn.2, hk⟩
  · rfl

end World

section registered

variable {w w' : World} {name key : String}

theorem World.scopes_endPrevious (w : World) (previous : Option SubscriptionId) :
    (w.endPrevious previous).scopes = w.scopes := by
  cases previous with
  | none => rfl
  | some id =>
    show (w.endSubscription id).scopes = w.scopes
    unfold endSubscription
    split <;> rfl

/-- An entry changes what is registered under a key only if it touches the key. -/
theorem Entry.Legal.registeredAs_eq {e : Entry} (h : e.Legal)
    (untouched : ¬ e.occurrence.Touches name key) (u : ScopeId) :
    e.after.world.registeredAs u name key = e.before.world.registeredAs u name key := by
  have of_scopes {w w' : World} (hs : w'.scopes = w.scopes) :
      w'.registeredAs u name key = w.registeredAs u name key := by
    simp only [World.registeredAs, hs]
  cases h with
  | asked => rfl
  | written w pending a =>
    have same : w.SameRegistries (a.write w) :=
      .modifyScope (f := fun scope => scope.bind a.name a.binding) w a.target fun _ => rfl
    exact congrArg (OrderedMap.entriesOf · key) (same.registered u name)
  | listened => exact World.registeredAs_listened_of_ne untouched u
  | unlistened => exact World.registeredAs_unlistened_of_ne untouched u
  | began => rfl
  | failed => rfl
  | kept => exact of_scopes (World.scopes_endPrevious _ _)
  | ended => exact of_scopes (World.scopes_endPrevious _ _)

/-- As long as nothing touches a key, the same callback stays registered under it in each scope. -/
theorem Record.registeredAs_eq {s s' : Affairs} {entries : List Entry} (h : Record s entries s')
    (untouched : ∀ e ∈ entries, ¬ e.occurrence.Touches name key) (u : ScopeId) :
    s'.world.registeredAs u name key = s.world.registeredAs u name key := by
  let I (at_ : Affairs) : Prop := at_.world.registeredAs u name key = s.world.registeredAs u name key
  refine (h.keeps (I := I) rfl (fun hs hi => ?_) fun e he legal hi => ?_).2
  · exact (congrArg (OrderedMap.entriesOf · key) (hs.registered u name)).trans hi
  · exact (legal.registeredAs_eq (untouched e he) u).trans hi

end registered

/-- A value is handed to callbacks, in order, until one fails; those that were called are listed. -/
inductive Delivery (perform : Task → Run Value) (v : Value) :
    OrderedMap Callback → World → OrderedMap Callback → Except Interrupt Unit → World → Prop where
  | done (w) : Delivery perform v [] w [] (.ok ()) w
  | failed {key callback rest w w' i}
      (h : holding (v.held ++ heldByCallbacks (callback :: OrderedMap.values rest))
        (Eval.perform (.deliver callback v)) perform w = (.error i, w')) :
      Delivery perform v ((key, callback) :: rest) w [(key, callback)] (.error i) w'
  | called {key callback rest w w' w'' result called outcome}
      (h : holding (v.held ++ heldByCallbacks (callback :: OrderedMap.values rest))
        (Eval.perform (.deliver callback v)) perform w = (.ok result, w'))
      (later : Delivery perform v rest w' called outcome w'') :
      Delivery perform v ((key, callback) :: rest) w ((key, callback) :: called) outcome w''

namespace Delivery

variable {perform : Task → Run Value} {v : Value} {callbacks called : OrderedMap Callback}
  {w w' : World} {outcome : Except Interrupt Unit}

theorem exists_of_deliverAll (perform : Task → Run Value) (v : Value)
    (callbacks : OrderedMap Callback) (w : World) :
    ∃ called, Delivery perform v callbacks w called (deliverAll v callbacks.values perform w).1
      (deliverAll v callbacks.values perform w).2 := by
  induction callbacks generalizing w with
  | nil => exact ⟨[], .done w⟩
  | cons e rest ih =>
    obtain ⟨key, callback⟩ := e
    show ∃ called, Delivery perform v ((key, callback) :: rest) w called
      (deliverAll v (callback :: OrderedMap.values rest) perform w).1
      (deliverAll v (callback :: OrderedMap.values rest) perform w).2
    rcases hr : holding (v.held ++ heldByCallbacks (callback :: OrderedMap.values rest))
      (Eval.perform (.deliver callback v)) perform w with ⟨i | result, w'⟩
    · rw [deliverAll, bind_of_error hr]
      exact ⟨_, .failed hr⟩
    · rw [deliverAll, bind_of_ok hr]
      obtain ⟨called, later⟩ := ih w'
      exact ⟨_, .called hr later⟩

/-- No callback is called twice or out of order, and none that is not listed. -/
theorem prefix_of (h : Delivery perform v callbacks w called outcome w') :
    called <+: callbacks := by
  induction h with
  | done => exact List.prefix_rfl
  | failed => exact ⟨_, rfl⟩
  | called _ _ ih => exact (List.prefix_cons_inj _).mpr ih

/-- Every callback is called if none fails. -/
theorem eq_of_ok (h : Delivery perform v callbacks w called outcome w') (ok : outcome = .ok ()) :
    called = callbacks := by
  induction h with
  | done => rfl
  | failed => cases ok
  | called _ _ ih => rw [ih ok]

end Delivery

theorem BindAttempt.announce_apply (a : BindAttempt) (perform : Task → Run Value) (w : World) :
    a.announce perform w = holding a.previous.held
      (deliverAll a.value (w.scopes.registered a.target a.name).values) perform w := by
  have callbacks : (w.scopes[a.target]?.map fun s => s.callbacks a.name).getD [] =
      (w.scopes.registered a.target a.name).values := by
    simp only [ScopeTable.registered, Scope.callbacks]
    cases w.scopes[a.target]? <;> rfl
  rw [← callbacks]
  rfl

/-- A set hands the value to what is registered in its target, in order, until a callback fails. -/
theorem BindAttempt.announce_delivers (a : BindAttempt) (perform : Task → Run Value) (w : World) :
    ∃ called w', Delivery perform a.value (w.scopes.registered a.target a.name)
      { w with inUse := a.previous.held ++ w.inUse } called (a.announce perform w).1 w' := by
  obtain ⟨called, delivery⟩ := Delivery.exists_of_deliverAll perform a.value
    (w.scopes.registered a.target a.name) { w with inUse := a.previous.held ++ w.inUse }
  rw [a.announce_apply]
  exact ⟨called, _, delivery⟩

/-- A call on a scope, or one that takes a callback off. -/
inductive ListenerCall where
  | call (c : ScopeCall)
  | unlisten (scope : ScopeId) (name key : String)

namespace ListenerCall

def run : ListenerCall → Eval Unit
  | .call c => c.run
  | .unlisten scope name key => unlistenVariable scope name key

def runAll : List ListenerCall → Eval Unit
  | [] => pure ()
  | c :: rest => do
    c.run
    runAll rest

/-- What a call itself does to the callbacks on variables. -/
def Enters : ListenerCall → Occurrence → Prop
  | .call (.listen scope name key callback), o => o = .listened scope name key callback
  | .unlisten scope name key, o => o = .unlistened scope name key
  | _, _ => False

/-- Callbacks are registered and taken off by the calls and by the relays of nodes only. -/
def Accounts (calls : List ListenerCall) (entries : List Entry) : Prop :=
  ∀ e ∈ entries, e.occurrence.Internal ∨ ∃ call ∈ calls, call.Enters e.occurrence

theorem ledger (call : ListenerCall) (fuel : Nat) (w : World) :
    ∃ entries, Ledger fuel [] call.run w entries ∧ Accounts [call] entries := by
  have still {x : Eval Unit} (h : ∀ perform, w.SameRegistries (x perform w).2) :
      ∃ entries, Ledger fuel [] x w entries ∧ Accounts [call] entries :=
    ⟨[], .still h, List.forall_mem_nil _⟩
  have single {o : Occurrence} (h : call.Enters o) : ∃ call' ∈ [call], call'.Enters o :=
    ⟨call, List.mem_cons_self, h⟩
  cases call with
  | unlisten scope name key =>
    exact ⟨_, .unlistened scope name key, List.forall_mem_singleton.mpr (.inr (single rfl))⟩
  | call c =>
    cases c with
    | child parent name => exact still fun _ => .addScope w rfl
    | set scope name value options =>
      have bound : Protocol (fun _ => True) (Eval.bind scope name value options) :=
        .bindName scope name value options
      have caught := Protocol.bind (.attempt bound) fun _ => .pure ()
      obtain ⟨entries, ledger, internal⟩ := caught.ledger fuel [] w
      exact ⟨entries, ledger, fun e he => .inl (internal e he)⟩
    | setParameter scope name value =>
      exact still fun _ =>
        .modifyScope (f := fun s => s.bind name (.parameter value)) w scope fun _ => rfl
    | listen scope name key callback =>
      exact ⟨_, .listened scope name key callback, List.forall_mem_singleton.mpr (.inr (single rfl))⟩

theorem ledger_runAll (calls : List ListenerCall) (fuel : Nat) (w : World) :
    ∃ entries, Ledger fuel [] (runAll calls) w entries ∧ Accounts calls entries := by
  induction calls generalizing w with
  | nil => exact ⟨[], .still fun _ => .refl w, List.forall_mem_nil _⟩
  | cons call rest ih =>
    obtain ⟨entries, he, accounts⟩ := call.ledger fuel w
    have first : Accounts (call :: rest) entries := fun e he =>
      (accounts e he).imp_right fun ⟨c, hc, enters⟩ =>
        ⟨c, List.mem_cons.mpr (.inl (List.mem_singleton.mp hc)), enters⟩
    rcases hr : call.run.run fuel w with ⟨i | ⟨⟩, w'⟩
    · exact ⟨entries, .bind_error he hr, first⟩
    · obtain ⟨entries', he', accounts'⟩ := ih w'
      refine ⟨entries ++ entries', .bind_ok he hr he', List.forall_mem_append.mpr ⟨first, ?_⟩⟩
      exact fun e he => (accounts' e he).imp_right fun ⟨c, hc, enters⟩ =>
        ⟨c, List.mem_cons_of_mem _ hc, enters⟩

end ListenerCall

/-- What a set calls under a key, at the moment when its value is written. -/
theorem BindAttempt.announce_calls (a : BindAttempt) (perform : Task → Run Value) (w : World)
    (key : String) :
    ∃ called w', Delivery perform a.value (w.scopes.registered a.target a.name)
      { w with inUse := a.previous.held ++ w.inUse } called (a.announce perform w).1 w' ∧
      (w.registeredAs a.target a.name key = [] → called.entriesOf key = []) ∧
      ((a.announce perform w).1 = .ok () →
        called.entriesOf key = w.registeredAs a.target a.name key) := by
  obtain ⟨called, w', delivery⟩ := a.announce_delivers perform w
  refine ⟨called, w', delivery, fun none => ?_, fun ok => ?_⟩
  · have le : called.entriesOf key <+: (w.scopes.registered a.target a.name).entriesOf key :=
      delivery.prefix_of.filter _
    exact List.prefix_nil.mp (none ▸ le)
  · rw [delivery.eq_of_ok ok]
    rfl

/-- A callback is called exactly once by every successful set of its home, as long as nothing else
is done under its key, and other sets call under this key what they did before. It does not matter
through which scopes the sets are made, how deep they are nested, or what is declared meanwhile. -/
theorem listener_called_by_sets_of_home (calls : List ListenerCall) (fuel : Nat) (w : World)
    (s : ScopeId) (name key : String) (callback : Callback) (hs : s < w.scopes.size)
    (unique : (w.scopes.registered (w.scopes.targetOf s name) name).UniqueKeys) :
    let home := w.scopes.targetOf s name
    let start := w.listened s name key callback
    (listenVariable s name key callback).run fuel w = (.ok (), start) ∧
    (∃ entries, Ledger fuel [] (ListenerCall.runAll calls) start entries ∧
      ListenerCall.Accounts calls entries) ∧
    ∀ entries, Ledger fuel [] (ListenerCall.runAll calls) start entries →
      ∀ earlier u pending a later, entries = earlier ++ .written u pending a :: later →
        (∀ e ∈ earlier, ¬ e.occurrence.Touches name key) → a.name = name →
        ∀ perform, ∃ called v, Delivery perform a.value
          ((a.write u).scopes.registered a.target name)
          { a.write u with inUse := a.previous.held ++ u.inUse } called
          (a.announce perform (a.write u)).1 v ∧
          ((a.announce perform (a.write u)).1 = .ok () → called.entriesOf key =
            if a.target = home then [(key, callback)] else w.registeredAs a.target name key) := by
  intro home start
  refine ⟨rfl, ListenerCall.ledger_runAll calls fuel start, ?_⟩
  rintro entries ledger earlier u pending a later rfl untouched rfl perform
  obtain ⟨before, legal, -⟩ := ledger.record.split
  have written : (a.write u).registeredAs a.target a.name key =
      u.registeredAs a.target a.name key := legal.registeredAs_eq id a.target
  have since : u.registeredAs a.target a.name key = start.registeredAs a.target a.name key :=
    before.registeredAs_eq untouched a.target
  obtain ⟨called, v, delivery, -, all⟩ := a.announce_calls perform (a.write u) key
  refine ⟨called, v, delivery, fun ok => ?_⟩
  rw [all ok, written, since]
  exact World.registeredAs_listened hs unique a.target

/-- Taking a callback off undoes its registration if the name resolves to the home then: no set
calls anything under the key in that scope any more. If it resolves to another scope, the callback
stays registered, and every successful set of its home goes on calling it. -/
theorem unlisten_takes_off_what_name_resolves_to (calls : List ListenerCall) (fuel : Nat)
    (w : World) (s : ScopeId) (name key : String) (callback : Callback) (hs : s < w.scopes.size)
    (unique : (w.scopes.registered (w.scopes.targetOf s name) name).UniqueKeys) :
    let home := w.scopes.targetOf s name
    let start := w.listened s name key callback
    (listenVariable s name key callback).run fuel w = (.ok (), start) ∧
    (∃ entries, Ledger fuel [] (ListenerCall.runAll calls) start entries ∧
      ListenerCall.Accounts calls entries) ∧
    ∀ entries, Ledger fuel [] (ListenerCall.runAll calls) start entries →
      ∀ earlier u pending later, entries = earlier ++ .unlistened u pending s name key :: later →
        (∀ e ∈ earlier, ¬ e.occurrence.Touches name key) →
        ∀ between u' pending' a rest, later = between ++ .written u' pending' a :: rest →
          (∀ e ∈ between, ¬ e.occurrence.Touches name key) → a.name = name →
          ∀ perform, ∃ called v, Delivery perform a.value
            ((a.write u').scopes.registered a.target name)
            { a.write u' with inUse := a.previous.held ++ u'.inUse } called
            (a.announce perform (a.write u')).1 v ∧
            (a.target = u.scopes.targetOf s name → called.entriesOf key = []) ∧
            (a.target ≠ u.scopes.targetOf s name → (a.announce perform (a.write u')).1 = .ok () →
              called.entriesOf key =
                if a.target = home then [(key, callback)] else w.registeredAs a.target name key) := by
  intro home start
  refine ⟨rfl, ListenerCall.ledger_runAll calls fuel start, ?_⟩
  rintro entries ledger earlier u pending later rfl untouched between u' pending' a rest rfl
    untouched' rfl perform
  obtain ⟨before, -, after⟩ := ledger.record.split
  obtain ⟨meanwhile, legal, -⟩ := after.split
  have written : (a.write u').registeredAs a.target a.name key =
      u'.registeredAs a.target a.name key := legal.registeredAs_eq id a.target
  have since : u'.registeredAs a.target a.name key =
      (u.unlistened s a.name key).registeredAs a.target a.name key :=
    meanwhile.registeredAs_eq untouched' a.target
  have earlier : u.registeredAs a.target a.name key = start.registeredAs a.target a.name key :=
    before.registeredAs_eq untouched a.target
  have now : (a.write u').registeredAs a.target a.name key =
      if a.target = u.scopes.targetOf s a.name then [] else
        start.registeredAs a.target a.name key := by
    rw [written, since, World.registeredAs_unlistened, earlier]
  obtain ⟨called, v, delivery, none, all⟩ := a.announce_calls perform (a.write u') key
  refine ⟨called, v, delivery, fun resolved => none ?_, fun other ok => ?_⟩
  · rw [now, if_pos resolved]
  · rw [all ok, now, if_neg other]
    exact World.registeredAs_listened hs unique a.target

/-- A scope inside a root. -/
def nestedScopes : World :=
  { scopes := #[{ name := "root", parent := none }, { name := "inner", parent := some 0 }] }

/-- A callback that writes what it is given into the log. -/
def heard : Callback := .program [.input, .record .delivery "heard"]

theorem heard_writes (v : Value) (w : World) :
    (deliver heard v).run 1 w = (.ok v, w.note (.recorded .delivery "heard" v)) := rfl

/-- A variable that nobody has yet is listened to from inside, and then declared further out: the
inner scope sees the new value, but its callback is not called. -/
theorem listener_misses_declaration_further_out :
    let w := nestedScopes.listened 1 "k" "l" heard
    let set := (Eval.bind 0 "k" (.int 1) { declare := true }).run 2 w
    set.1 = .ok (.int 1) ∧ set.2.scopes.declaring? 1 "k" = some 0 ∧
      set.2.scopes.find? 1 "k" = some (.int 1) ∧ set.2.log = [] := ⟨rfl, rfl, rfl, rfl⟩

/-- The inner scope has listened to a variable of the root, declares it itself, and takes the
callback off: the callback is still called by the next set in the root. -/
theorem shadowed_listener_outlives_unlisten :
    let calls : List ListenerCall :=
      [.call (.set 0 "k" (.int 1) { declare := true }), .call (.listen 1 "k" "l" heard),
        .call (.set 1 "k" (.int 2) { declare := true }), .unlisten 1 "k" "l",
        .call (.set 0 "k" (.int 3) {})]
    ((ListenerCall.runAll calls).run 2 nestedScopes).2.log =
      [.recorded .delivery "heard" (.int 3)] := by cbv

section witnesses

/-- The inner scope binds the variable itself, in a world that has the same scopes otherwise. -/
def innerAttempt (w : World) : BindAttempt := w.attempt 1 "k" (.int 1) { declare := true }

def setInner : ListenerCall := .call (.set 1 "k" (.int 1) { declare := true })

theorem setInner_ledger {w : World} (unbound : w.scopes.localBinding? 1 "k" = none) (fuel : Nat) :
    ∃ later, Ledger fuel [] (ListenerCall.runAll [setInner]) w
      (.written w [] (innerAttempt w) :: later) := by
  have free : ¬ (innerAttempt w).Barred w := by
    rintro ⟨b, hb, -⟩
    cases unbound.symm.trans hb
  have seen : (innerAttempt w).seen = none := unbound
  have checks (perform : Task → Run Value) : (innerAttempt w).check perform w = (.ok (), w) := by
    simp only [BindAttempt.check, BindAttempt.binding, seen]
    rfl
  have check : Ledger fuel [] (innerAttempt w).check w [] :=
    .still fun perform => by rw [checks]; exact .refl w
  obtain ⟨announcing, announce, -⟩ := (Protocol.announceBinding (p := fun _ => True)
    (innerAttempt w)).ledger fuel [] ((innerAttempt w).write w)
  have bound : Ledger fuel [] (Eval.bind 1 "k" (.int 1) { declare := true }) w
      ([] ++ .written w [] (innerAttempt w) :: announcing) :=
    .written rfl free check (checks _) free announce
  obtain ⟨outcome, w', ran⟩ : ∃ outcome w', (Eval.attempt (Eval.bind 1 "k" (.int 1)
      { declare := true })).run fuel w = (outcome, w') := ⟨_, _, rfl⟩
  cases outcome with
  | error i =>
    have failed : setInner.run.run fuel w = (.error i, w') := bind_of_error ran
    exact ⟨_, .bind_error (.bind_error (.attempt bound) ran) failed⟩
  | ok r =>
    have set : setInner.run.run fuel w = (.ok (), w') := bind_of_ok ran
    have all : Ledger fuel [] (ListenerCall.runAll [setInner]) w
        (([] ++ .written w [] (innerAttempt w) :: announcing) ++ [] ++ []) :=
      .bind_ok (.bind_ok (.attempt bound) ran (.still fun _ => .refl _)) set (.still fun _ => .refl _)
    exact ⟨announcing, by simpa using all⟩

theorem setInner_calls_listener :
    let w := nestedScopes.listened 1 "k" "l" heard
    ∃ called v, Delivery (performWith 1) (.int 1) [("l", heard)] ((innerAttempt w).write w) called
      (.ok ()) v ∧ called.entriesOf "l" = [("l", heard)] := by
  intro w
  obtain ⟨later, ledger⟩ := setInner_ledger (w := w) rfl 2
  obtain ⟨-, -, all⟩ := listener_called_by_sets_of_home [setInner] 2 nestedScopes 1 "k" "l" heard
    (by decide) List.nodup_nil
  obtain ⟨called, v, delivery, once⟩ := all _ ledger [] w [] (innerAttempt w) later rfl
    (List.forall_mem_nil _) rfl (performWith 1)
  exact ⟨called, v, delivery, once rfl⟩

theorem setInner_spares_listener_taken_off :
    let w := nestedScopes.listened 1 "k" "l" heard
    let u := w.unlistened 1 "k" "l"
    ∃ called v, Delivery (performWith 1) (.int 1) [] ((innerAttempt u).write u) called (.ok ()) v ∧
      called.entriesOf "l" = [] := by
  intro w u
  obtain ⟨later, ledger⟩ := setInner_ledger (w := u) rfl 2
  have taken : (unlistenVariable 1 "k" "l").run 2 w = (.ok (), u) := rfl
  have ledger' : Ledger 2 [] (ListenerCall.runAll [.unlisten 1 "k" "l", setInner]) w
      (.unlistened w [] 1 "k" "l" :: .written u [] (innerAttempt u) :: later) :=
    .bind_ok (.unlistened 1 "k" "l") taken ledger
  obtain ⟨-, -, all⟩ := unlisten_takes_off_what_name_resolves_to [.unlisten 1 "k" "l", setInner] 2
    nestedScopes 1 "k" "l" heard (by decide) List.nodup_nil
  obtain ⟨called, v, delivery, none, -⟩ := all _ ledger' [] w [] _ rfl (List.forall_mem_nil _) []
    u [] (innerAttempt u) later rfl (List.forall_mem_nil _) rfl (performWith 1)
  exact ⟨called, v, delivery, none rfl⟩

end witnesses

end ReactiveScript
