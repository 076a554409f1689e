import Mathlib.Data.Fintype.Card
import Mathlib.Data.Fintype.EquivFin
import Mathlib.Data.Fintype.Sets
import ReactiveScript.Proofs.Construction
import ReactiveScript.Proofs.Keys
import ReactiveScript.Proofs.Numerals

/-!
# Graphs of nodes that are connected through their inputs

A node that is listened to for the first time is wired: it registers a relay on each node among its
inputs, which are wired before. In a graph without cycles this comes to an end. What is registered
then are the callbacks that were given, each under a key of its own, and one relay for each node
that is wired and has the node among its inputs.
-/

namespace ReactiveScript

open Eval

namespace Node

/-- The key that a node makes from a number. -/
def generatedKey (id : NodeId) (k : Nat) : String := Text.ofNat id ++ "-" ++ Text.ofNat k

theorem relayKey_injective {x y : NodeId} (h : relayKey x = relayKey y) : x = y :=
  Text.ofNat_injective ((String.append_right_inj _).mp h)

theorem generatedKey_injective {id : NodeId} {k l : Nat}
    (h : generatedKey id k = generatedKey id l) : k = l :=
  Text.ofNat_injective ((String.append_right_inj _).mp h)

/-- A relay is registered under a letter, other callbacks under a digit. -/
theorem generatedKey_ne_relayKey (id x : NodeId) (k : Nat) : generatedKey id k ≠ relayKey x := by
  intro h
  have texts := congrArg String.toList h
  simp only [generatedKey, relayKey, Text.ofNat, String.toList_append, String.toList_ofList] at texts
  cases digits : Nat.toDigits 10 id with
  | nil => exact Nat.toDigits_ne_nil digits
  | cons c rest =>
    have digit : c.isDigit := Text.isDigit_of_mem_toDigits (digits ▸ List.mem_cons_self)
    rw [digits] at texts
    obtain ⟨rfl, -⟩ := List.cons.inj texts
    exact absurd digit (by decide)

/-- The nodes among the inputs of a node, to which it listens unless a variable triggers it. -/
def upstream (n : Node) : List NodeId :=
  match n.trigger with
  | .inputs => n.inputs.filterMap fun v => v.asNode?.map NodeRef.id
  | .variable _ _ => []

/-- A node apart from whom it listens to and who listens to it. -/
def unheard (n : Node) : Node := { n with wired := false, listeners := {} }

end Node

namespace World

def upstream (w : World) (x : NodeId) : List NodeId := ((w.node? x).map Node.upstream).getD []

def isWired (w : World) (x : NodeId) : Bool := (w.node? x).any Node.wired

def listeners (w : World) (x : NodeId) : Listeners := ((w.node? x).map Node.listeners).getD {}

theorem listenersOf_eq (w : World) (x : NodeId) :
    w.listenersOf x = (w.listeners x).entries.values := by
  unfold listenersOf listeners
  cases w.node? x <;> rfl

/-- A node of a set has another one among its inputs. -/
def HasInput (w : World) (nodes : Finset NodeId) (m x : NodeId) : Prop :=
  x ∈ nodes ∧ m ∈ w.upstream x

/-- A node of a set listens to another one that is among its inputs. -/
def Feeds (w : World) (nodes : Finset NodeId) (m x : NodeId) : Prop :=
  w.HasInput nodes m x ∧ w.isWired x

/-- Nothing is different about the nodes but how they listen to each other. -/
structure SameGraph (w w' : World) : Prop where
  context : w'.context = w.context
  nodes : ∀ id, (w'.node? id).map Node.unheard = (w.node? id).map Node.unheard

namespace SameGraph

variable {w w' w'' : World}

theorem refl (w : World) : w.SameGraph w := ⟨rfl, fun _ => rfl⟩

theorem trans (h : w.SameGraph w') (h' : w'.SameGraph w'') : w.SameGraph w'' :=
  ⟨h'.context.trans h.context, fun id => (h'.nodes id).trans (h.nodes id)⟩

theorem upstream (h : w.SameGraph w') (x : NodeId) : w'.upstream x = w.upstream x := by
  have through (w : World) :
      w.upstream x = (((w.node? x).map Node.unheard).map Node.upstream).getD [] := by
    rw [World.upstream, Option.map_map]
    rfl
  rw [through, through, h.nodes]

theorem hasInput_eq (h : w.SameGraph w') (nodes : Finset NodeId) :
    w'.HasInput nodes = w.HasInput nodes := by
  funext m x
  rw [HasInput, HasInput, h.upstream]

theorem isSome (h : w.SameGraph w') {x : NodeId} :
    (w'.node? x).isSome = (w.node? x).isSome := by
  simpa using congrArg Option.isSome (h.nodes x)

end SameGraph

/-- A node has been found to listen, and starts to. -/
def wire (w : World) (x : NodeId) : World := w.modifyNode x fun n => { n with wired := true }

def relist (w : World) (x : NodeId) (f : Listeners → Listeners) : World :=
  w.modifyNode x fun n => { n with listeners := f n.listeners }

section changes

variable {w : World} {x y : NodeId} {f : Node → Node}

theorem ne_zero_of_node? (h : (w.node? x).isSome) : x ≠ 0 := by
  rintro rfl
  cases h

theorem node?_modify (h : (w.node? x).isSome) (f : Node → Node) (y : NodeId) :
    (w.modifyNode x f).node? y = if x = y then (w.node? y).map f else w.node? y :=
  node?_modifyNode w (ne_zero_of_node? h) f y

theorem sameGraph_modifyNode (h : (w.node? x).isSome) (hf : ∀ n, (f n).unheard = n.unheard) :
    w.SameGraph (w.modifyNode x f) where
  context := rfl
  nodes id := by
    rw [node?_modify h]
    split
    · rw [Option.map_map, show Node.unheard ∘ f = Node.unheard from funext hf]
    · rfl

theorem sameGraph_wire (h : (w.node? x).isSome) : w.SameGraph (w.wire x) :=
  sameGraph_modifyNode h fun _ => rfl

theorem sameGraph_relist (h : (w.node? x).isSome) (f : Listeners → Listeners) :
    w.SameGraph (w.relist x f) := sameGraph_modifyNode h fun _ => rfl

theorem isWired_wire (h : (w.node? x).isSome) :
    (w.wire x).isWired y ↔ y = x ∨ w.isWired y := by
  obtain ⟨n, hn⟩ := Option.isSome_iff_exists.mp h
  rw [isWired, wire, node?_modify h, isWired]
  split
  · next he =>
    subst he
    simp [hn]
  · next he => simp [Ne.symm he]

theorem listeners_wire (h : (w.node? x).isSome) : (w.wire x).listeners y = w.listeners y := by
  rw [listeners, wire, node?_modify h, listeners]
  split
  · rw [Option.map_map]
    rfl
  · rfl

theorem isWired_relist (h : (w.node? x).isSome) {f : Listeners → Listeners} :
    (w.relist x f).isWired y = w.isWired y := by
  rw [isWired, relist, node?_modify h, isWired]
  split
  · cases w.node? y <;> rfl
  · rfl

theorem listeners_relist (h : (w.node? x).isSome) (f : Listeners → Listeners) :
    (w.relist x f).listeners y = if y = x then f (w.listeners y) else w.listeners y := by
  obtain ⟨n, hn⟩ := Option.isSome_iff_exists.mp h
  rw [listeners, relist, node?_modify h, listeners]
  by_cases he : y = x
  · subst he
    simp [hn]
  · simp [he, Ne.symm he]

end changes

end World

/-- A callback that is registered on a node. -/
structure Registration where
  node : NodeId
  key : String
  callback : Callback

/-- The callback is registered on the node. -/
def World.Lists (w : World) (r : Registration) : Prop :=
  (r.key, r.callback) ∈ (w.listeners r.node).entries

/-- Existing nodes that are connected through their inputs, without cycles. -/
structure InputGraph (nodes : Finset NodeId) (w : World) : Prop where
  exist : ∀ x ∈ nodes, (w.node? x).isSome
  closed : ∀ {m x}, w.HasInput nodes m x → m ∈ nodes
  acyclic : ∀ x, ¬ Relation.TransGen (w.HasInput nodes) x x

namespace InputGraph

variable {nodes : Finset NodeId} {w w' : World} {P : NodeId → Prop}

theorem of_sameGraph (graph : InputGraph nodes w) (same : w.SameGraph w') : InputGraph nodes w' where
  exist x hx := by
    rw [same.isSome]
    exact graph.exist x hx
  closed := by
    rw [same.hasInput_eq]
    exact graph.closed
  acyclic := by
    rw [same.hasInput_eq]
    exact graph.acyclic

/-- What holds of a node if it holds of all nodes among its inputs. -/
theorem upstream_induction (graph : InputGraph nodes w)
    (step : ∀ x ∈ nodes, (∀ m, w.HasInput nodes m x → P m) → P x) : ∀ x ∈ nodes, P x := by
  let below (m x : nodes) : Prop := Relation.TransGen (w.HasInput nodes) m x
  have : IsTrans nodes below := ⟨fun _ _ _ => .trans⟩
  have : Std.Irrefl below := ⟨fun x => graph.acyclic x⟩
  intro x hx
  have all := (Finite.wellFounded_of_trans_of_irrefl below).induction
    (C := fun x : nodes => P x) ⟨x, hx⟩
  exact all fun x ih => step x x.2 fun m hm => ih ⟨m, graph.closed hm⟩ (.single hm)

/-- What holds of a node if it holds of all nodes that have it among their inputs. -/
theorem downstream_induction (graph : InputGraph nodes w)
    (step : ∀ m ∈ nodes, (∀ x, w.HasInput nodes m x → P x) → P m) : ∀ m ∈ nodes, P m := by
  let above (x m : nodes) : Prop := Relation.TransGen (w.HasInput nodes) m x
  have : IsTrans nodes above := ⟨fun _ _ _ h h' => h'.trans h⟩
  have : Std.Irrefl above := ⟨fun x => graph.acyclic x⟩
  intro m hm
  have all := (Finite.wellFounded_of_trans_of_irrefl above).induction
    (C := fun m : nodes => P m) ⟨m, hm⟩
  exact all fun m ih => step m m.2 fun x hx => ih ⟨x, hx.1⟩ (.single hx)

end InputGraph

end ReactiveScript
