import ReactiveScript.Proofs.InputGraphs

/-!
# What is registered on the nodes of a graph

Callbacks are registered on nodes that nobody has listened to yet, one after the other and in any
order. Each time, the node and all nodes upstream of it are wired, unless they are already. While a
node is being wired, the relays on the nodes among its inputs are not complete; those nodes that are
being wired are all downstream of the present one, which is why a node is never found half wired.
-/

namespace ReactiveScript

open Eval

/-- The relay of a node on one of its inputs. -/
def Registration.relay (m x : NodeId) : Registration := ⟨m, Node.relayKey x, .relay x⟩

namespace World

def register (w : World) (r : Registration) : World :=
  w.relist r.node fun l => l.register r.key r.callback

/-- A node uses up a number for a key. -/
def generate (w : World) (x : NodeId) : World :=
  w.relist x fun _ => ((w.listeners x).generateKey x).2

section registering

variable {w : World} {r r' : Registration} {x y : NodeId}

theorem next_le_register (h : (w.node? r.node).isSome) (y : NodeId) :
    (w.listeners y).next ≤ ((w.register r).listeners y).next := by
  rw [register, listeners_relist h]
  split
  · rw [Listeners.register]
    show (w.listeners y).next ≤ if _ then _ else _
    split
    · exact Nat.le_refl _
    · exact Nat.le_succ _
  · exact Nat.le_refl _

/-- What is listed anew is the new registration and what was listed under other keys. -/
theorem lists_register_iff (h : (w.node? r.node).isSome)
    (unique : (w.listeners r.node).entries.UniqueKeys)
    (same : w.Lists r' → r'.node = r.node → r'.key = r.key → r' = r) :
    (w.register r).Lists r' ↔ r' = r ∨ w.Lists r' := by
  obtain ⟨node, key, callback⟩ := r
  obtain ⟨node', key', callback'⟩ := r'
  simp only [Lists, register, listeners_relist h] at same ⊢
  by_cases hn : node' = node
  · subst hn
    rw [if_pos rfl]
    show _ ∈ OrderedMap.insert .. ↔ _
    rw [OrderedMap.mem_insert unique]
    constructor
    · rintro (he | ⟨he, -⟩)
      · cases he
        exact .inl rfl
      · exact .inr he
    · rintro (he | he)
      · cases he
        exact .inl rfl
      · by_cases hk : key' = key
        · cases same he rfl hk
          exact .inl rfl
        · exact .inr ⟨he, hk⟩
  · rw [if_neg hn]
    exact ⟨.inr, fun he => he.resolve_left fun he => hn (congrArg Registration.node he)⟩

theorem uniqueKeys_register (h : (w.node? r.node).isSome)
    (unique : (w.listeners y).entries.UniqueKeys) :
    ((w.register r).listeners y).entries.UniqueKeys := by
  rw [register, listeners_relist h]
  split
  · exact OrderedMap.uniqueKeys_insert unique r.key r.callback
  · exact unique

theorem listeners_generate (h : (w.node? x).isSome) : (w.generate x).listeners y =
    if y = x then { w.listeners y with next := (w.listeners y).next + 1 } else w.listeners y := by
  rw [generate, listeners_relist h]
  split
  · next he =>
    subst he
    rfl
  · rfl

theorem entries_generate (h : (w.node? x).isSome) :
    ((w.generate x).listeners y).entries = (w.listeners y).entries := by
  rw [listeners_generate h]
  split <;> rfl

end registering

/-- What was wired or registered is so still, and nothing else is different about the nodes. -/
structure Gains (w w' : World) : Prop where
  same : w.SameGraph w'
  wired : ∀ x, w.isWired x → w'.isWired x
  lists : ∀ r, w.Lists r → w'.Lists r

namespace Gains

variable {w w' w'' : World}

theorem refl (w : World) : w.Gains w := ⟨.refl w, fun _ => id, fun _ => id⟩

theorem trans (h : w.Gains w') (h' : w'.Gains w'') : w.Gains w'' where
  same := h.same.trans h'.same
  wired x hx := h'.wired x (h.wired x hx)
  lists r hr := h'.lists r (h.lists r hr)

theorem feeds (h : w.Gains w') {nodes : Finset NodeId} {m x : NodeId} (hf : w.Feeds nodes m x) :
    w'.Feeds nodes m x := by
  rw [Feeds, h.same.hasInput_eq]
  exact ⟨hf.1, h.wired x hf.2⟩

end Gains

end World

/-- What is registered on the nodes of a graph: callbacks that were given, under generated keys, and
the relays of wired nodes on their inputs, which are wired themselves. Pending nodes are being wired;
relays of theirs may be missing. -/
structure Connected (nodes : Finset NodeId) (pending : List NodeId) (given : List Registration)
    (w : World) : Prop where
  relays : ∀ {m x}, w.Feeds nodes m x → x ∉ pending → w.isWired m ∧ w.Lists (.relay m x)
  listed : ∀ r, r.node ∈ nodes → w.Lists r →
    r ∈ given ∨ ∃ x, w.Feeds nodes r.node x ∧ r = .relay r.node x
  registered : ∀ r ∈ given, r.node ∈ nodes ∧ w.isWired r.node ∧ w.Lists r ∧
    ∃ k < (w.listeners r.node).next, r.key = Node.generatedKey r.node k
  unique : ∀ x ∈ nodes, (w.listeners x).entries.UniqueKeys
  distinct : (given.map fun r => (r.node, r.key)).Nodup

namespace Connected

variable {nodes : Finset NodeId} {pending : List NodeId} {given : List Registration} {w w' : World}
  {m x : NodeId}

/-- A callback that was given is not registered under the key of a relay. -/
theorem key_ne_relayKey (h : Connected nodes pending given w) {r : Registration} (hr : r ∈ given)
    (x : NodeId) : r.key ≠ Node.relayKey x := by
  obtain ⟨-, -, -, k, -, hk⟩ := h.registered r hr
  rw [hk]
  exact Node.generatedKey_ne_relayKey r.node x k

/-- Under a key of a relay, nothing else is registered. -/
theorem eq_relay (h : Connected nodes pending given w) {r : Registration} (hr : r.node ∈ nodes)
    (lists : w.Lists r) (key : r.key = Node.relayKey x) : r = .relay r.node x := by
  rcases h.listed r hr lists with hg | ⟨y, -, he⟩
  · exact absurd key (h.key_ne_relayKey hg x)
  · rw [he] at key
    cases Node.relayKey_injective key
    exact he

/-- A step after which more may be wired or registered. What is wired anew is pending. -/
theorem step {pending' : List NodeId} {given' : List Registration}
    (h : Connected nodes pending given w) (gains : w.Gains w')
    (next : ∀ y, (w.listeners y).next ≤ (w'.listeners y).next)
    (still : ∀ x ∈ pending, x ∈ pending')
    (wired : ∀ x, w'.isWired x → w.isWired x ∨ x ∈ pending')
    (listed : ∀ r, w'.Lists r →
      w.Lists r ∨ r ∈ given' ∨ ∃ x, w'.Feeds nodes r.node x ∧ r = .relay r.node x)
    (before : ∀ r ∈ given, r ∈ given')
    (after : ∀ r ∈ given', r ∈ given ∨ r.node ∈ nodes ∧ w'.isWired r.node ∧ w'.Lists r ∧
      ∃ k < (w'.listeners r.node).next, r.key = Node.generatedKey r.node k)
    (unique : ∀ x ∈ nodes, (w'.listeners x).entries.UniqueKeys)
    (distinct : (given'.map fun r => (r.node, r.key)).Nodup) :
    Connected nodes pending' given' w' where
  relays {m x} hf hp := by
    have feeds : w.Feeds nodes m x := by
      refine ⟨?_, (wired x hf.2).resolve_right hp⟩
      rw [← gains.same.hasInput_eq]
      exact hf.1
    obtain ⟨hw, hl⟩ := h.relays feeds (mt (still x) hp)
    exact ⟨gains.wired m hw, gains.lists _ hl⟩
  listed r hr hl := by
    rcases listed r hl with hl | accounted
    · refine (h.listed r hr hl).imp (before r) ?_
      rintro ⟨x, feeds, he⟩
      exact ⟨x, gains.feeds feeds, he⟩
    · exact accounted
  registered r hr := by
    rcases after r hr with hg | new
    · obtain ⟨hn, hw, hl, k, hk, key⟩ := h.registered r hg
      exact ⟨hn, gains.wired _ hw, gains.lists r hl, k, Nat.lt_of_lt_of_le hk (next _), key⟩
    · exact new
  unique := unique
  distinct := distinct

/-- Nothing is wired or registered. -/
theorem of_same (h : Connected nodes pending given w) (same : w.SameGraph w')
    (wired : ∀ x, w'.isWired x = w.isWired x)
    (entries : ∀ x, (w'.listeners x).entries = (w.listeners x).entries)
    (next : ∀ x, (w.listeners x).next ≤ (w'.listeners x).next) :
    w.Gains w' ∧ Connected nodes pending given w' := by
  have lists (r : Registration) : w'.Lists r ↔ w.Lists r := by
    rw [World.Lists, World.Lists, entries]
  have gains : w.Gains w' := ⟨same, fun x hx => (wired x).trans hx, fun r => (lists r).mpr⟩
  refine ⟨gains, h.step gains next (fun _ => id) (fun x hx => .inl ((wired x).symm.trans hx))
    (fun r hl => .inl ((lists r).mp hl)) (fun _ => id) (fun _ => .inl) (fun x hx => ?_) h.distinct⟩
  rw [entries]
  exact h.unique x hx

/-- How nodes listen to each other is told by the table of nodes. -/
theorem of_nodes (h : Connected nodes pending given w) (context : w'.context = w.context)
    (table : w'.nodes = w.nodes) : w.Gains w' ∧ Connected nodes pending given w' := by
  have node? (y : NodeId) : w'.node? y = w.node? y := by rw [World.node?, World.node?, table]
  have listeners (y : NodeId) : w'.listeners y = w.listeners y := by
    rw [World.listeners, World.listeners, node?]
  refine h.of_same ⟨context, fun y => ?_⟩ (fun y => ?_) (fun y => ?_) fun y => ?_
  · rw [node?]
  · rw [World.isWired, World.isWired, node?]
  · rw [listeners]
  · rw [listeners]

theorem generate (h : Connected nodes pending given w) (hx : (w.node? x).isSome) :
    w.Gains (w.generate x) ∧ Connected nodes pending given (w.generate x) := by
  refine h.of_same (World.sameGraph_relist hx _) (fun _ => World.isWired_relist hx)
    (fun _ => World.entries_generate hx) fun y => ?_
  rw [World.listeners_generate hx]
  split
  · exact Nat.le_succ _
  · exact Nat.le_refl _

/-- A node starts to be wired. -/
theorem wire (h : Connected nodes pending given w) (hx : (w.node? x).isSome) :
    w.Gains (w.wire x) ∧ Connected nodes (x :: pending) given (w.wire x) := by
  have wired (y : NodeId) : (w.wire x).isWired y ↔ y = x ∨ w.isWired y := World.isWired_wire hx
  have listeners (y : NodeId) : (w.wire x).listeners y = w.listeners y := World.listeners_wire hx
  have lists (r : Registration) : (w.wire x).Lists r ↔ w.Lists r := by
    rw [World.Lists, World.Lists, listeners]
  have gains : w.Gains (w.wire x) :=
    ⟨World.sameGraph_wire hx, fun y hy => (wired y).mpr (.inr hy), fun r => (lists r).mpr⟩
  refine ⟨gains, h.step gains (fun y => ?_) (fun _ => List.mem_cons_of_mem x) (fun y hy => ?_)
    (fun r hl => .inl ((lists r).mp hl)) (fun _ => id) (fun _ => .inl) (fun y hy => ?_) h.distinct⟩
  · rw [listeners]
  · rcases (wired y).mp hy with rfl | hy
    · exact .inr List.mem_cons_self
    · exact .inl hy
  · rw [listeners]
    exact h.unique y hy

/-- A node is wired as soon as its relays are in place. -/
theorem wired (h : Connected nodes (x :: pending) given w)
    (placed : ∀ m, w.HasInput nodes m x → w.isWired m ∧ w.Lists (.relay m x)) :
    Connected nodes pending given w where
  relays {m y} hf hp := by
    by_cases he : y = x
    · subst he
      exact placed m hf.1
    · exact h.relays hf fun hm => hp ((List.mem_cons.mp hm).resolve_left he)
  listed := h.listed
  registered := h.registered
  unique := h.unique
  distinct := h.distinct

section register

variable (h : Connected nodes pending given w) {r : Registration} (hr : (w.node? r.node).isSome)
  (hn : r.node ∈ nodes)
include h hr hn

/-- A registration replaces no other one. -/
theorem lists_register (same : ∀ r', w.Lists r' → r'.node = r.node → r'.key = r.key → r' = r)
    (r' : Registration) : (w.register r).Lists r' ↔ r' = r ∨ w.Lists r' :=
  World.lists_register_iff hr (h.unique r.node hn) (same r')

theorem gains_register
    (same : ∀ r', w.Lists r' → r'.node = r.node → r'.key = r.key → r' = r) :
    w.Gains (w.register r) where
  same := World.sameGraph_relist hr _
  wired y hy := by
    rw [World.register, World.isWired_relist hr]
    exact hy
  lists r' hl := (h.lists_register hr hn same r').mpr (.inr hl)

/-- The graph stays connected if what is registered is a relay or was given. -/
theorem register {given' : List Registration}
    (same : ∀ r', w.Lists r' → r'.node = r.node → r'.key = r.key → r' = r)
    (accounted : r ∈ given' ∨ ∃ x, w.Feeds nodes r.node x ∧ r = .relay r.node x)
    (before : ∀ r' ∈ given, r' ∈ given')
    (after : ∀ r' ∈ given', r' ∈ given ∨ r' = r ∧ w.isWired r.node ∧
      ∃ k < (w.listeners r.node).next, r.key = Node.generatedKey r.node k)
    (distinct : (given'.map fun r => (r.node, r.key)).Nodup) :
    Connected nodes pending given' (w.register r) := by
  have gains := h.gains_register hr hn same
  have lists := h.lists_register hr hn same
  have next := World.next_le_register hr
  have wired (y : NodeId) : (w.register r).isWired y = w.isWired y := World.isWired_relist hr
  refine h.step gains next (fun _ => id) (fun y hy => .inl ((wired y).symm.trans hy))
    (fun r' hl => ?_) before (fun r' hr' => ?_)
    (fun y hy => World.uniqueKeys_register hr (h.unique y hy)) distinct
  · rcases (lists r').mp hl with rfl | hl
    · refine .inr (accounted.imp_right ?_)
      rintro ⟨x, feeds, he⟩
      exact ⟨x, gains.feeds feeds, he⟩
    · exact .inl hl
  · refine (after r' hr').imp_right ?_
    rintro ⟨rfl, hw, k, hk, key⟩
    exact ⟨hn, gains.wired _ hw, (lists r').mpr (.inl rfl), k, Nat.lt_of_lt_of_le hk (next _), key⟩

end register

section steps

variable (h : Connected nodes pending given w) (hm : (w.node? m).isSome) (hn : m ∈ nodes)
include h hm hn

/-- A node that is being wired registers its relay, for the first time or again. -/
theorem relay (feeds : w.Feeds nodes m x) :
    Connected nodes pending given (w.register (.relay m x)) ∧
      w.Gains (w.register (.relay m x)) ∧ (w.register (.relay m x)).Lists (.relay m x) := by
  have same (r : Registration) (hl : w.Lists r) (node : r.node = m)
      (key : r.key = Node.relayKey x) : r = .relay m x := by
    subst node
    exact h.eq_relay hn hl key
  refine ⟨?_, h.gains_register hm hn same, (h.lists_register hm hn same _).mpr (.inl rfl)⟩
  exact h.register hm hn same (.inr ⟨x, feeds, rfl⟩) (fun _ => id) (fun _ => .inl) h.distinct

/-- A callback is registered under a key that has just been generated. -/
theorem give (wired : w.isWired m) {k : Nat} (hk : k < (w.listeners m).next) (callback : Callback)
    (new : ∀ r ∈ given, r.node = m → r.key ≠ Node.generatedKey m k) :
    let r : Registration := ⟨m, Node.generatedKey m k, callback⟩
    Connected nodes pending (given ++ [r]) (w.register r) ∧ w.Gains (w.register r) := by
  have same (r : Registration) (hl : w.Lists r) (node : r.node = m)
      (key : r.key = Node.generatedKey m k) : r = ⟨m, Node.generatedKey m k, callback⟩ := by
    rcases h.listed r (node ▸ hn) hl with hg | ⟨x, -, he⟩
    · exact absurd key (new r hg node)
    · rw [he] at key
      exact absurd key.symm (Node.generatedKey_ne_relayKey m x k)
  refine ⟨?_, h.gains_register hm hn same⟩
  refine h.register hm hn same (.inl List.mem_concat_self) (fun _ => List.mem_append_left _)
    (fun r hr => ?_) ?_
  · exact (List.mem_append.mp hr).imp_right fun hr =>
      ⟨List.mem_singleton.mp hr, wired, k, hk, rfl⟩
  · rw [List.map_append, List.nodup_append]
    refine ⟨h.distinct, List.nodup_singleton _, fun a ha b hb he => ?_⟩
    obtain ⟨r, hr, rfl⟩ := List.mem_map.mp ha
    cases List.mem_singleton.mp hb
    obtain ⟨node, key⟩ := Prod.mk.inj he
    exact new r hr node key

end steps

end Connected
end ReactiveScript
