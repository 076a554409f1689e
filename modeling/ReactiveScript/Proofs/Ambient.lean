import ReactiveScript.Proofs.Change
import ReactiveScript.Proofs.Containers
import ReactiveScript.Proofs.Liveness
import ReactiveScript.Proofs.Views

/-!
# Ambient scopes

Below the scopes that an evaluation enters itself are those that were active before: its ambient
scopes. A callback that is registered meanwhile takes all of them along. Leaving given scopes out of
every stack below its innermost scope leaves what an evaluation sees that looks at the current scope
alone. Two worlds in which the rest is the same keep the same things alive, if the scopes that are
left out are held in both.
-/

namespace ReactiveScript

/-- The scopes of a stack that matter when given ones do not: the innermost one, and all others. -/
def ScopeStack.trim (K : List ScopeId) (s : ScopeStack) : ScopeStack :=
  s.take 1 ++ s.filter (· ∉ K)

/-- Two stacks have the same innermost scope, and the same others apart from given scopes. -/
def ScopeStack.Matches (K : List ScopeId) (s t : ScopeStack) : Prop := s.trim K = t.trim K

namespace ScopeStack

variable {K : List ScopeId} {s s' t t' : ScopeStack}

theorem trim_eq_iff :
    s.trim K = t.trim K ↔ s.head? = t.head? ∧ s.filter (· ∉ K) = t.filter (· ∉ K) := by
  cases s <;> cases t <;> simp [trim]

theorem trim_append (h : s.trim K = t.trim K) (h' : s'.trim K = t'.trim K) :
    (s ++ s').trim K = (t ++ t').trim K := by
  rw [trim_eq_iff] at h h' ⊢
  simp only [List.head?_append, List.filter_append, h.1, h.2, h'.1, h'.2, and_self]

theorem filter_eq_nil (h : s ⊆ K) : s.filter (· ∉ K) = [] := by
  simpa using fun a ha => h ha

/-- What stands below a scope can be left out. -/
theorem trim_append_of_subset (scope : ScopeId) (inner : ScopeStack) (h : s ⊆ K) (h' : t ⊆ K) :
    ScopeStack.trim K (scope :: inner ++ s) = ScopeStack.trim K (scope :: inner ++ t) := by
  rw [trim_eq_iff]
  simp only [List.filter_append, filter_eq_nil h, filter_eq_nil h', and_true]
  rfl

theorem mem_held {a : ScopeId} : Held.scope a ∈ ScopeStack.held s ↔ a ∈ s := by
  simp [ScopeStack.held]

theorem held_subset_of_trim (h : s.trim K = t.trim K) {x : Held} (hx : x ∈ s.held) :
    x ∈ t.held ∨ x ∈ ScopeStack.held K := by
  obtain ⟨a, ha, rfl⟩ := List.mem_map.mp hx
  rw [mem_held, mem_held]
  by_cases outside : a ∈ K
  · exact .inr outside
  · have kept : a ∈ s.filter (· ∉ K) := List.mem_filter.mpr ⟨ha, by simpa using outside⟩
    rw [(trim_eq_iff.mp h).2] at kept
    exact .inl (List.mem_filter.mp kept).1

end ScopeStack

variable {K : List ScopeId}

/-- A callback without the scopes that are left out. -/
def Callback.trim (K : List ScopeId) : Callback → Callback
  | .guarded id callback => .guarded id (callback.trim K)
  | .evaluate kind scopes expr => .evaluate kind (scopes.trim K) expr
  | .commitWhen c rhs scopes => .commitWhen c rhs (scopes.trim K)
  | .commit c scopes => .commit c (scopes.trim K)
  | callback => callback

def Listeners.trim (K : List ScopeId) (l : Listeners) : Listeners :=
  { l with entries := l.entries.mapValues (Callback.trim K) }

def Node.trim (K : List ScopeId) (n : Node) : Node := { n with listeners := n.listeners.trim K }

def Scope.trim (K : List ScopeId) (s : Scope) : Scope :=
  { s with listeners :=
      s.listeners.mapValues fun callbacks => callbacks.mapValues (Callback.trim K) }

def ScopeTable.trim (K : List ScopeId) (t : ScopeTable) : ScopeTable := t.map (Scope.trim K)

def Backend.trim (K : List ScopeId) : Backend → Backend
  | .queue b => .queue { b with subscribers := b.subscribers.mapValues (Callback.trim K) }
  | .recording b => .recording { b with subscribers := b.subscribers.mapValues (Callback.trim K) }

def Resource.trim (K : List ScopeId) (r : Resource) : Resource :=
  { r with backend := r.backend.trim K }

def Request.trim (K : List ScopeId) : Request → Request
  | .subscribe id callback => .subscribe id (callback.trim K)
  | request => request

def Task.trim (K : List ScopeId) : Task → Task
  | .listen node key callback => .listen node key (callback.trim K)
  | .deliver callback v => .deliver (callback.trim K) v
  | .poll resource callback => .poll resource (callback.trim K)
  | task => task

/-- A world without the scopes that are left out, without the stacks of the line of execution that
runs, and without what is in use. -/
def World.trim (K : List ScopeId) (w : World) : World :=
  { w with
    nodes := w.nodes.map (Node.trim K)
    scopes := w.scopes.trim K
    resources := w.resources.map (Resource.trim K)
    inUse := []
    context := { w.context with scopes := [], calls := CallStack.empty } }

section allowed

variable {p : Action → Prop}

@[simp] theorem Callback.allowed_trim (c : Callback) : (c.trim K).Allowed p ↔ c.Allowed p := by
  cases c with
  | guarded id callback => exact callback.allowed_trim
  | _ => exact Iff.rfl

theorem Callback.allowed_of_trim {c d : Callback} (h : c.trim K = d.trim K) (hc : c.Allowed p) :
    d.Allowed p := d.allowed_trim.mp (h ▸ c.allowed_trim.mpr hc)

theorem World.Allowed.of_eq {w w' : World} (h : w.Allowed p) (nodes : w'.nodes = w.nodes)
    (scopes : w'.scopes = w.scopes) (resources : w'.resources = w.resources) : w'.Allowed p :=
  ⟨nodes ▸ h.nodes, scopes ▸ h.scopes, resources ▸ h.resources⟩

end allowed

section held

/-- What a callback holds, apart from scopes that are left out. -/
theorem Callback.held_subset_of_trim {c d : Callback} (h : c.trim K = d.trim K) {x : Held}
    (hx : x ∈ c.held) : x ∈ d.held ∨ x ∈ ScopeStack.held K := by
  cases c with
  | guarded id callback =>
    cases d <;> simp only [Callback.trim, reduceCtorEq, Callback.guarded.injEq] at h
    exact callback.held_subset_of_trim h.2 hx
  | evaluate kind scopes expr =>
    cases d <;> simp only [Callback.trim, reduceCtorEq, Callback.evaluate.injEq] at h
    obtain ⟨rfl, same, rfl⟩ := h
    simp only [Callback.held, List.mem_append] at hx ⊢
    rcases hx with hx | hx
    · exact (ScopeStack.held_subset_of_trim same hx).imp_left .inl
    · exact .inl (.inr hx)
  | commitWhen c rhs scopes =>
    cases d <;> simp only [Callback.trim, reduceCtorEq, Callback.commitWhen.injEq] at h
    obtain ⟨rfl, rfl, same⟩ := h
    simp only [Callback.held, List.mem_append] at hx ⊢
    rcases hx with hx | hx
    · exact .inl (.inl hx)
    · exact (ScopeStack.held_subset_of_trim same hx).imp_left .inr
  | commit c scopes =>
    cases d <;> simp only [Callback.trim, reduceCtorEq, Callback.commit.injEq] at h
    obtain ⟨rfl, same⟩ := h
    simp only [Callback.held, List.mem_append] at hx ⊢
    rcases hx with hx | hx
    · exact .inl (.inl hx)
    · exact (ScopeStack.held_subset_of_trim same hx).imp_left .inr
  | relay node => cases hx
  | program actions =>
    cases d <;> simp only [Callback.trim, reduceCtorEq, Callback.program.injEq] at h
    exact .inl (h ▸ hx)

theorem heldByCallbacks_subset_of_trim {cs ds : List Callback}
    (h : cs.map (Callback.trim K) = ds.map (Callback.trim K)) {x : Held}
    (hx : x ∈ heldByCallbacks cs) : x ∈ heldByCallbacks ds ∨ x ∈ ScopeStack.held K := by
  simp only [heldByCallbacks, List.mem_flatMap] at hx ⊢
  obtain ⟨c, hc, hx⟩ := hx
  have hm : c.trim K ∈ ds.map (Callback.trim K) := h ▸ List.mem_map_of_mem hc
  obtain ⟨d, hd, same⟩ := List.mem_map.mp hm
  exact (Callback.held_subset_of_trim same.symm hx).imp_left fun hx => ⟨d, hd, hx⟩

theorem Node.held_subset_of_trim {n m : Node} (h : n.trim K = m.trim K) {x : Held}
    (hx : x ∈ n.held) : x ∈ m.held ∨ x ∈ ScopeStack.held K := by
  have listeners : n.listeners.ordered.map (Callback.trim K) =
      m.listeners.ordered.map (Callback.trim K) := by
    have entries := congrArg (fun n => n.listeners.entries.values) h
    simp only [Node.trim, Listeners.trim, OrderedMap.values_mapValues] at entries
    exact entries
  have inputs : n.inputs = m.inputs := (congrArg Node.inputs h :)
  have body : n.body = m.body := (congrArg Node.body h :)
  have captured : n.captured = m.captured := (congrArg Node.captured h :)
  have trigger : n.trigger = m.trigger := (congrArg Node.trigger h :)
  rw [Node.held, List.mem_append] at hx ⊢
  rcases hx with hx | hx
  · rw [inputs, body, captured, trigger] at hx
    exact .inl (.inl hx)
  · exact (heldByCallbacks_subset_of_trim listeners hx).imp_left .inr

theorem Scope.held_subset_of_trim {s t : Scope} (h : s.trim K = t.trim K) {x : Held}
    (hx : x ∈ s.held) : x ∈ t.held ∨ x ∈ ScopeStack.held K := by
  have listeners := congrArg (fun s => s.listeners.values) h
  simp only [Scope.trim, OrderedMap.values_mapValues] at listeners
  have parent : s.parent = t.parent := (congrArg Scope.parent h :)
  have bindings : s.bindings = t.bindings := (congrArg Scope.bindings h :)
  have handler : s.handler = t.handler := (congrArg Scope.handler h :)
  simp only [Scope.held, List.mem_append] at hx ⊢
  rw [parent, bindings, handler] at hx
  rcases hx with (hx | hx) | hx
  · exact .inl (.inl (.inl hx))
  · obtain ⟨callbacks, hc, hx⟩ := List.mem_flatMap.mp hx
    have hm : callbacks.mapValues (Callback.trim K) ∈
        t.listeners.values.map fun callbacks => callbacks.mapValues (Callback.trim K) :=
      listeners ▸ List.mem_map_of_mem hc
    obtain ⟨callbacks', hc', same⟩ := List.mem_map.mp hm
    have values := (congrArg OrderedMap.values same).symm
    rw [OrderedMap.values_mapValues, OrderedMap.values_mapValues] at values
    refine (heldByCallbacks_subset_of_trim values hx).imp_left fun hx => .inl (.inr ?_)
    exact List.mem_flatMap.mpr ⟨callbacks', hc', hx⟩
  · exact .inl (.inr hx)

theorem Backend.held_subset_of_trim {b b' : Backend} (h : b.trim K = b'.trim K) {x : Held}
    (hx : x ∈ b.held) : x ∈ b'.held ∨ x ∈ ScopeStack.held K := by
  have trimmed (b : Backend) : (b.trim K).items = b.items ∧
      (b.trim K).subscribers.values = b.subscribers.values.map (Callback.trim K) := by
    cases b <;> exact ⟨rfl, OrderedMap.values_mapValues _ _⟩
  have items : b.items = b'.items := by rw [← (trimmed b).1, h, (trimmed b').1]
  have subscribers : b.subscribers.values.map (Callback.trim K) =
      b'.subscribers.values.map (Callback.trim K) := by
    rw [← (trimmed b).2, h, (trimmed b').2]
  simp only [Backend.held, List.mem_append] at hx ⊢
  rcases hx with hx | hx
  · exact .inl (.inl (items ▸ hx))
  · exact (heldByCallbacks_subset_of_trim subscribers hx).imp_left .inr

theorem Resource.held_subset_of_trim {r r' : Resource} (h : r.trim K = r'.trim K) {id : ResourceId}
    {x : Held} (hx : x ∈ r.held id) : x ∈ r'.held id ∨ x ∈ ScopeStack.held K := by
  have backend : r.backend.trim K = r'.backend.trim K := congrArg Resource.backend h
  have parts {x : Held} := Backend.held_subset_of_trim backend (x := x)
  unfold Resource.held at hx ⊢
  cases hb : r.backend <;> cases hb' : r'.backend <;> simp only [hb, hb'] at hx backend parts ⊢
  · exact parts hx
  · cases backend
  · cases backend
  · rcases List.mem_cons.mp hx with rfl | hx
    · exact .inl List.mem_cons_self
    · exact (parts hx).imp_left (List.mem_cons_of_mem _)

end held

namespace ScopeTable

variable (t : ScopeTable) (id : ScopeId) (name : String)

theorem getElem?_trim : (t.trim K)[id]? = t[id]?.map (Scope.trim K) := Array.getElem?_map

theorem chain_trim : (t.trim K).chain id = t.chain id := by
  refine chain_congr Array.size_map (fun u => ?_) id
  show ((t.trim K)[u]?).map Scope.parent = _
  rw [getElem?_trim]
  cases t[u]? <;> rfl

theorem localBinding?_trim : (t.trim K).localBinding? id name = t.localBinding? id name := by
  rw [localBinding?, getElem?_trim, localBinding?]
  cases t[id]? <;> rfl

theorem hasLocal_trim : (t.trim K).hasLocal id name = t.hasLocal id name := by
  rw [hasLocal, localBinding?_trim, hasLocal]

theorem declaring?_trim : (t.trim K).declaring? id name = t.declaring? id name := by
  simp only [declaring?, chain_trim, hasLocal_trim]

theorem targetOf_trim : (t.trim K).targetOf id name = t.targetOf id name := by
  rw [targetOf, declaring?_trim, targetOf]

theorem find?_trim : (t.trim K).find? id name = t.find? id name := by
  simp only [find?, binding?, declaring?_trim, localBinding?_trim]

theorem handler?_trim : (t.trim K).handler? id = t.handler? id := by
  have handler (s : ScopeId) : ((t.trim K)[s]?.bind Scope.handler) = t[s]?.bind Scope.handler := by
    rw [getElem?_trim]
    cases t[s]? <;> rfl
  simp only [handler?, chain_trim, handler]

theorem name_trim : (t.trim K).name id = t.name id := by
  rw [ScopeTable.name, getElem?_trim, ScopeTable.name]
  cases t[id]? <;> rfl

end ScopeTable

/-- Actions that look at the current scope alone: all but the one that asks how many scopes are
active and how many executions are under way. -/
def Action.Lexical : Action → Prop
  | .depths => False
  | _ => True

namespace World

variable {w v w' : World} {n : Nat} {id : Nat}

theorem node?_trim (w : World) (id : NodeId) :
    (w.trim K).node? id = (w.node? id).map (Node.trim K) := by
  unfold World.node?
  split
  · rfl
  · exact Array.getElem?_map

theorem resource?_trim (w : World) (id : ResourceId) :
    (w.trim K).resource? id = (w.resource? id).map (Resource.trim K) := Array.getElem?_map

/-- The scopes that are left out are held anyway, and a number of nested executions are admitted. -/
structure Grounded (K : List ScopeId) (n : Nat) (w : World) : Prop where
  allowed : w.Allowed Action.Lexical
  held : ScopeStack.held K ⊆ w.inUse
  room : w.context.calls.size + n < w.settings.maxRecursionDepth

/-- What an evaluation leaves as it has found it. -/
structure Restored (w w' : World) : Prop where
  allowed : w'.Allowed Action.Lexical
  scopes : w'.context.scopes = w.context.scopes
  calls : w'.context.calls = w.context.calls
  inUse : w'.inUse = w.inUse
  settings : w'.settings = w.settings

theorem Restored.refl (h : w.Allowed Action.Lexical) : w.Restored w := ⟨h, rfl, rfl, rfl, rfl⟩

theorem Restored.trans {w'' : World} (h : w.Restored w') (h' : w'.Restored w'') : w.Restored w'' :=
  ⟨h'.allowed, h'.scopes.trans h.scopes, h'.calls.trans h.calls, h'.inUse.trans h.inUse,
    h'.settings.trans h.settings⟩

theorem Restored.of_change (h : Change Action.Lexical w w') (hw : w.Allowed Action.Lexical) :
    w.Restored w' :=
  ⟨h.allowed hw, congrArg Context.scopes h.sameFrame.context,
    congrArg Context.calls h.sameFrame.context, h.sameFrame.inUse, h.sameFrame.settings⟩

theorem Grounded.mono {m : Nat} (h : w.Grounded K m) (le : n ≤ m) : w.Grounded K n :=
  ⟨h.allowed, h.held, Nat.lt_of_le_of_lt (Nat.add_le_add_left le _) h.room⟩

theorem Grounded.restored (h : w.Grounded K n) (h' : w.Restored w') : w'.Grounded K n :=
  ⟨h'.allowed, h'.inUse ▸ h.held, by rw [h'.calls, h'.settings]; exact h.room⟩

/-- Two worlds that are the same apart from scopes that are left out and from the stacks of scopes,
which are related. -/
structure AlikeFrom (S : ScopeStack → ScopeStack → Prop) (K : List ScopeId) (n : Nat)
    (w v : World) : Prop where
  same : w.trim K = v.trim K
  scopes : S w.context.scopes v.context.scopes
  inUse : ∀ x, x ∈ w.inUse ↔ x ∈ v.inUse
  left : w.Grounded K n
  right : v.Grounded K n

/-- Worlds that are the same apart from scopes that are left out, with the same current scope. -/
abbrev Alike (K : List ScopeId) : Nat → World → World → Prop := AlikeFrom (ScopeStack.Matches K) K

/-- Two optional values with the same image are both there, or neither. -/
theorem none_or_some_of_map_eq {α β : Type} {f : α → β} {a b : Option α} (h : a.map f = b.map f) :
    (a = none ∧ b = none) ∨ ∃ x y, a = some x ∧ b = some y ∧ f x = f y := by
  cases a <;> cases b <;> simp_all

namespace AlikeFrom

variable {S : ScopeStack → ScopeStack → Prop}

theorem mono {m : Nat} (h : AlikeFrom S K m w v) (le : n ≤ m) : AlikeFrom S K n w v :=
  ⟨h.same, h.scopes, h.inUse, h.left.mono le, h.right.mono le⟩

/-- What evaluations leave of alike worlds is alike. -/
theorem after {v' : World} (h : AlikeFrom S K n w v) (same : w'.trim K = v'.trim K)
    (left : w.Restored w') (right : v.Restored v') : AlikeFrom S K n w' v' where
  same := same
  scopes := by rw [left.scopes, right.scopes]; exact h.scopes
  inUse x := by rw [left.inUse, right.inUse, h.inUse]
  left := h.left.restored left
  right := h.right.restored right

section reading

variable (h : AlikeFrom S K n w v)
include h

theorem settings : w.settings = v.settings := (congrArg World.settings h.same :)

theorem registers : w.registers = v.registers := (congrArg World.registers h.same :)

theorem isNotifying (id : NodeId) : w.context.isNotifying id = v.context.isNotifying id :=
  (congrArg (fun w => w.context.isNotifying id) h.same :)

theorem node? (id : NodeId) : (w.node? id = none ∧ v.node? id = none) ∨
    ∃ n m, w.node? id = some n ∧ v.node? id = some m ∧ n.trim K = m.trim K :=
  none_or_some_of_map_eq (by rw [← node?_trim, h.same, node?_trim])

theorem resource? (id : ResourceId) : (w.resource? id = none ∧ v.resource? id = none) ∨
    ∃ r s, w.resource? id = some r ∧ v.resource? id = some s ∧ r.trim K = s.trim K :=
  none_or_some_of_map_eq (by rw [← resource?_trim, h.same, resource?_trim])

theorem table : w.scopes.trim K = v.scopes.trim K := (congrArg World.scopes h.same :)

theorem find? (id : ScopeId) (name : String) :
    w.scopes.find? id name = v.scopes.find? id name := by
  rw [← ScopeTable.find?_trim, h.table, ScopeTable.find?_trim]

theorem localBinding? (id : ScopeId) (name : String) :
    w.scopes.localBinding? id name = v.scopes.localBinding? id name := by
  rw [← ScopeTable.localBinding?_trim, h.table, ScopeTable.localBinding?_trim]

theorem hasLocal (id : ScopeId) (name : String) :
    w.scopes.hasLocal id name = v.scopes.hasLocal id name :=
  congrArg Option.isSome (h.localBinding? id name)

theorem targetOf (id : ScopeId) (name : String) :
    w.scopes.targetOf id name = v.scopes.targetOf id name := by
  rw [← ScopeTable.targetOf_trim, h.table, ScopeTable.targetOf_trim]

theorem handler? (id : ScopeId) : w.scopes.handler? id = v.scopes.handler? id := by
  rw [← ScopeTable.handler?_trim, h.table, ScopeTable.handler?_trim]

theorem scopeName (id : ScopeId) : w.scopes.name id = v.scopes.name id := by
  rw [← ScopeTable.name_trim, h.table, ScopeTable.name_trim]

end reading

theorem symm (h : Alike K n w v) : Alike K n v w :=
  ⟨h.same.symm, h.scopes.symm, fun x => (h.inUse x).symm, h.right, h.left⟩

theorem current? (h : Alike K n w v) : w.context.current? = v.context.current? :=
  (ScopeStack.trim_eq_iff.mp h.scopes).1

section held

theorem roots (h : Alike K n w v) {x : Held} (hx : x ∈ w.held) : x ∈ v.held := by
  have subscriptions : w.subscriptions = v.subscriptions :=
    (congrArg World.subscriptions h.same :)
  have exports : w.exports = v.exports := (congrArg World.exports h.same :)
  have table : w.table = v.table := (congrArg World.table h.same :)
  have followed (id : SubscriptionId) : w.heldBySubscription id = v.heldBySubscription id := by
    rw [heldBySubscription, World.subscription?, subscriptions]
    rfl
  simp only [World.held, h.registers, exports, table, followed, List.mem_append] at hx ⊢
  rcases hx with (((hx | hx) | hx) | hx) | hx
  · rcases ScopeStack.held_subset_of_trim h.scopes hx with hx | hx
    · exact .inl (.inl (.inl (.inl hx)))
    · exact .inl (.inl (.inl (.inr (h.right.held hx))))
  · exact .inl (.inl (.inl (.inr ((h.inUse x).mp hx))))
  · exact .inl (.inl (.inr hx))
  · exact .inl (.inr hx)
  · exact .inr hx

theorem sizes (h : Alike K n w v) : w.nodes.size = v.nodes.size ∧ w.scopes.size = v.scopes.size ∧
    w.resources.size = v.resources.size := by
  have nodes := congrArg (fun w => w.nodes.size) h.same
  have scopes := congrArg (fun w => w.scopes.size) h.same
  have resources := congrArg (fun w => w.resources.size) h.same
  simp only [World.trim, ScopeTable.trim, Array.size_map] at nodes scopes resources
  exact ⟨nodes, scopes, resources⟩

theorem heldAt (h : Alike K n w v) (i : Nat) {x : Held} (hx : x ∈ w.heldAt i) :
    x ∈ v.heldAt i ∨ x ∈ ScopeStack.held K := by
  obtain ⟨nodes, scopes, -⟩ := h.sizes
  have node : w.nodes[i]?.map (Node.trim K) = v.nodes[i]?.map (Node.trim K) := by
    rw [← Array.getElem?_map, ← Array.getElem?_map]
    exact congrArg (fun w => w.nodes[i]?) h.same
  have scope (j : Nat) : w.scopes[j]?.map (Scope.trim K) = v.scopes[j]?.map (Scope.trim K) := by
    rw [← ScopeTable.getElem?_trim, ← ScopeTable.getElem?_trim, h.table]
  unfold World.heldAt at hx ⊢
  rw [nodes, scopes] at hx
  rcases none_or_some_of_map_eq node with ⟨hw, hv⟩ | ⟨m, m', hw, hv, same⟩
  · rw [hw] at hx
    rw [hv]
    rcases none_or_some_of_map_eq (scope (i - v.nodes.size)) with ⟨hw, hv⟩ | ⟨s, s', hw, hv, same⟩
    · rw [hw] at hx
      rw [hv]
      rcases h.resource? (i - v.nodes.size - v.scopes.size) with
        ⟨hw, -⟩ | ⟨r, r', hw, hv, same⟩ <;> unfold World.resource? at *
      · simp [hw] at hx
      · simp only [hw] at hx
        simp only [hv]
        exact Resource.held_subset_of_trim same hx
    · rw [hw] at hx
      rw [hv]
      exact Scope.held_subset_of_trim same hx
  · rw [hw] at hx
    rw [hv]
    exact Node.held_subset_of_trim same hx

theorem heldIn (h : Alike K n w v) : w.HeldIn v where
  nodes := h.sizes.1
  scopes := h.sizes.2.1
  resources := h.sizes.2.2
  roots _ hx := h.roots hx
  parts i x hx := (h.heldAt i hx).imp_right fun hx => by
    simp only [World.held, List.mem_append]
    exact .inl (.inl (.inl (.inr (h.right.held hx))))

/-- The same nodes exist in alike worlds. -/
theorem isHeld (h : Alike K n w v) (id : NodeId) :
    w.isHeld (.node id) = v.isHeld (.node id) := by
  refine isHeld_congr h.heldIn h.symm.heldIn ?_
  have inUse : w.inUse.contains (.node id) = v.inUse.contains (.node id) := by
    rw [Bool.eq_iff_iff, List.contains_iff_mem, List.contains_iff_mem]
    exact h.inUse (.node id)
  rw [isKept, isKept, inUse, h.registers]

end held

end AlikeFrom
end World
end ReactiveScript
