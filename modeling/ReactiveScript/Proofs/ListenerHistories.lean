import ReactiveScript.Proofs.Listening

/-!
# Histories of the listeners of a node

What is registered on a node is told by the calls that registered and removed callbacks: under each
key that was not removed since stands the callback registered last, and the keys stand in the order
in which they were registered first since they were removed last. A call on a node changes its
listeners in this way and otherwise only what is registered upstream of it.
-/

namespace ReactiveScript

open Eval

variable {key key' : String} {callback : Callback} {entries : OrderedMap Callback}

/-- A change of the listeners of a node. -/
inductive ListenerChange where
  | listened (key : String) (callback : Callback)
  | unlistened (key : String)

def ListenerChange.apply : ListenerChange → OrderedMap Callback → OrderedMap Callback
  | listened key callback, entries => entries.insert key callback
  | unlistened key, entries => entries.erase key

/-- The changes of the listeners of a node, the latest first. -/
abbrev ListenerHistory := List ListenerChange

namespace ListenerHistory

/-- The callback that was registered last under a key, unless the key was removed since. -/
def callback? : ListenerHistory → String → Option Callback
  | [], _ => none
  | .listened key callback :: earlier, key' =>
    if key = key' then some callback else callback? earlier key'
  | .unlistened key :: earlier, key' => if key = key' then none else callback? earlier key'

/-- The number of changes before the one that registered a key first since it was removed last. -/
def since : ListenerHistory → String → Nat
  | [], _ => 0
  | .listened key _ :: earlier, key' =>
    if key = key' ∧ (callback? earlier key).isNone then earlier.length else since earlier key'
  | .unlistened _ :: earlier, key' => since earlier key'

variable {h : ListenerHistory}

theorem callback?_listened : callback? (.listened key callback :: h) key' =
    if key = key' then some callback else h.callback? key' := rfl

theorem callback?_unlistened : callback? (.unlistened key :: h) key' =
    if key = key' then none else h.callback? key' := rfl

/-- A key that is registered again or not concerned keeps its place. -/
theorem since_listened (present : (h.callback? key').isSome) :
    since (.listened key callback :: h) key' = h.since key' := by
  refine if_neg ?_
  rintro ⟨rfl, absent⟩
  rw [Option.isNone_iff_eq_none.mp absent] at present
  cases present

theorem since_listened_new (absent : h.callback? key = none) :
    since (.listened key callback :: h) key = h.length :=
  if_pos ⟨rfl, by rw [absent, Option.isNone_none]⟩

theorem since_lt_length (present : (h.callback? key).isSome) : h.since key < h.length := by
  induction h with
  | nil => cases present
  | cons change earlier ih =>
    cases change with
    | listened k callback =>
      by_cases new : k = key ∧ (callback? earlier k).isNone
      · rw [since, if_pos new]
        exact Nat.lt_succ_self _
      · have before : (callback? earlier key).isSome := by
          by_cases hk : k = key
          · subst hk
            exact Option.isSome_iff_ne_none.mpr fun none =>
              new ⟨rfl, by rw [none, Option.isNone_none]⟩
          · rwa [callback?_listened, if_neg hk] at present
        rw [since, if_neg new]
        exact Nat.lt_succ_of_lt (ih before)
    | unlistened k =>
      rw [callback?_unlistened] at present
      split at present
      · cases present
      · exact Nat.lt_succ_of_lt (ih present)

/-- Listeners are what their history says, in the order that it says. -/
structure Tells (h : ListenerHistory) (entries : OrderedMap Callback) : Prop where
  listed : ∀ key callback, (key, callback) ∈ entries ↔ h.callback? key = some callback
  ordered : entries.keys.Pairwise fun a b => h.since a < h.since b

namespace Tells

theorem nil : Tells [] [] := ⟨fun _ _ => ⟨nofun, nofun⟩, .nil⟩

theorem mem_keys_iff (told : h.Tells entries) : key ∈ entries.keys ↔ (h.callback? key).isSome := by
  rw [OrderedMap.keys, List.mem_map, Option.isSome_iff_exists]
  constructor
  · rintro ⟨⟨k, callback⟩, hm, rfl⟩
    exact ⟨callback, (told.listed k callback).mp hm⟩
  · rintro ⟨callback, hc⟩
    exact ⟨(key, callback), (told.listed key callback).mpr hc, rfl⟩

theorem uniqueKeys (told : h.Tells entries) : entries.UniqueKeys :=
  told.ordered.imp fun lt he => absurd (he ▸ lt) (Nat.lt_irrefl _)

/-- There is only one such list. -/
theorem unique {entries' : OrderedMap Callback} (told : h.Tells entries)
    (told' : h.Tells entries') : entries = entries' := by
  have before {entries : OrderedMap Callback} (told : h.Tells entries) :
      List.Pairwise (fun a b => h.since a.1 < h.since b.1) entries := by
    have ordered := told.ordered
    rwa [OrderedMap.keys, List.pairwise_map] at ordered
  have same : entries.Perm entries' :=
    (List.perm_ext_iff_of_nodup told.uniqueKeys.of_map told'.uniqueKeys.of_map).mpr fun e =>
      (told.listed e.1 e.2).trans (told'.listed e.1 e.2).symm
  exact same.eq_of_pairwise (fun _ _ _ _ lt gt => absurd lt (Nat.lt_asymm gt)) (before told)
    (before told')

theorem listened (told : h.Tells entries) (key : String) (callback : Callback) :
    Tells (.listened key callback :: h) (entries.insert key callback) := by
  have kept : entries.keys.Pairwise fun a b => since (.listened key callback :: h) a <
      since (.listened key callback :: h) b := by
    refine told.ordered.imp_of_mem fun ha hb lt => ?_
    rw [since_listened (told.mem_keys_iff.mp ha), since_listened (told.mem_keys_iff.mp hb)]
    exact lt
  refine ⟨fun k c => ?_, ?_⟩
  · rw [OrderedMap.mem_insert told.uniqueKeys, callback?_listened, told.listed, Prod.mk.injEq]
    by_cases hk : key = k
    · simp [hk, eq_comm]
    · simp [hk, Ne.symm hk]
  · by_cases present : key ∈ entries.keys
    · rw [OrderedMap.keys_insert_of_mem present]
      exact kept
    · have absent : h.callback? key = none := by
        rw [told.mem_keys_iff] at present
        exact Option.not_isSome_iff_eq_none.mp present
      rw [OrderedMap.insert_of_notMem present, OrderedMap.keys, List.map_append, List.pairwise_append]
      refine ⟨kept, List.pairwise_singleton _ _, fun a ha b hb => ?_⟩
      cases List.mem_singleton.mp hb
      have before := told.mem_keys_iff.mp ha
      rw [since_listened before, since_listened_new absent]
      exact since_lt_length before

theorem unlistened (told : h.Tells entries) (key : String) :
    Tells (.unlistened key :: h) (entries.erase key) := by
  refine ⟨fun k c => ?_, ?_⟩
  · rw [OrderedMap.erase, List.mem_filter, callback?_unlistened, told.listed]
    by_cases hk : key = k
    · simp [hk]
    · simp [hk, Ne.symm hk]
  · exact told.ordered.sublist (List.filter_sublist.map Prod.fst)

theorem apply (told : h.Tells entries) (change : ListenerChange) :
    Tells (change :: h) (change.apply entries) := by
  cases change with
  | listened key callback => exact told.listened key callback
  | unlistened key => exact told.unlistened key

end Tells
end ListenerHistory

section connecting

variable {nodes : Finset NodeId} {start w w' w'' : World} {x m : NodeId}

/-- Nothing is different but how nodes listen, and that upstream of a node only. -/
structure World.ChangesAbove (nodes : Finset NodeId) (start : World) (x : NodeId) (w w' : World) :
    Prop where
  same : w.SameGraph w'
  listeners : ∀ y, ¬ Relation.TransGen (start.HasInput nodes) y x → w'.listeners y = w.listeners y

namespace World.ChangesAbove

theorem refl (w : World) : ChangesAbove nodes start x w w := ⟨.refl w, fun _ _ => rfl⟩

theorem trans (h : ChangesAbove nodes start x w w') (h' : ChangesAbove nodes start x w' w'') :
    ChangesAbove nodes start x w w'' where
  same := h.same.trans h'.same
  listeners y hy := (h'.listeners y hy).trans (h.listeners y hy)

theorem wire (hx : (w.node? x).isSome) : ChangesAbove nodes start x w (w.wire x) :=
  ⟨sameGraph_wire hx, fun _ _ => listeners_wire hx⟩

theorem register (hm : (w.node? m).isSome) (input : start.HasInput nodes m x) (key : String)
    (callback : Callback) : ChangesAbove nodes start x w (w.register ⟨m, key, callback⟩) where
  same := sameGraph_relist hm _
  listeners y hy := by
    rw [World.register, listeners_relist hm, if_neg]
    rintro rfl
    exact hy (.single input)

theorem of_nodes (context : w'.context = w.context) (table : w'.nodes = w.nodes) :
    ChangesAbove nodes start x w w' := by
  have node? (y : NodeId) : w'.node? y = w.node? y := by rw [World.node?, World.node?, table]
  refine ⟨⟨context, fun y => by rw [node?]⟩, fun y _ => ?_⟩
  rw [World.listeners, World.listeners, node?]

end World.ChangesAbove

open World (ChangesAbove)

end connecting

/-- A call that changes the listeners of a node. -/
inductive NodeCall where
  /-- Without a key, one is generated. -/
  | listen (key : Option String) (callback : Callback)
  | unlisten (key : String)

namespace NodeCall

/-- Makes a call on a node and answers with the change, under the key that the call answered with. -/
def run (id : NodeId) : NodeCall → Eval ListenerChange
  | listen key callback => do
    let answer ← perform (.listen id key callback)
    return .listened (answer.asText?.getD "") callback
  | unlisten key => do
    Eval.unlisten id key
    return .unlistened key

/-- Makes calls on a node in order and puts what they change before what was changed earlier. -/
def runAll (id : NodeId) : List NodeCall → ListenerHistory → Eval ListenerHistory
  | [], earlier => return earlier
  | call :: rest, earlier => do
    let change ← call.run id
    runAll id rest (change :: earlier)

/-- What a call changes: a key that was given is the key of the change. -/
inductive Makes (id : NodeId) : NodeCall → ListenerChange → Prop where
  | given (key : String) (callback : Callback) :
      Makes id (listen (some key) callback) (.listened key callback)
  | generated (k : Nat) (callback : Callback) :
      Makes id (listen none callback) (.listened (Node.generatedKey id k) callback)
  | unlistened (key : String) : Makes id (unlisten key) (.unlistened key)

section ends

variable {nodes : Finset NodeId} {w : World} {id : NodeId}

end ends
end NodeCall
end ReactiveScript
