import ReactiveScript.Proofs.Relays

/-!
# Listening in a graph

Each of a sequence of calls registers a callback on a node of a graph and answers with a key. The
calls end, and what is registered then is connected. The induction is on the graph: the nodes among
the inputs of a node are listened to while the node itself is being wired.
-/

namespace ReactiveScript

open Eval

/-- Registers callbacks on nodes under generated keys, and answers with the keys. -/
def Eval.listenAll : List (NodeId × Callback) → Eval (List Value)
  | [] => return []
  | (node, callback) :: rest => do
    let key ← perform (.listen node none callback)
    return key :: (← listenAll rest)

theorem Eval.listenAll_plain (calls : List (NodeId × Callback)) : (listenAll calls).Plain := by
  induction calls with
  | nil => exact .pure _
  | cons call rest ih =>
    have asked : (Task.listen call.1 none call.2).Allowed fun _ => True :=
      Task.allowed_of_forall (fun _ => trivial) _
    exact .bind (.perform asked) fun key => .bind ih fun keys => .pure _

/-- The second part asks for nothing. -/
theorem Eval.Ends.bind_apply {α β : Type} {x : Eval α} {f : α → Eval β} {w w₁ w' : World} {a : α}
    {s : Except EvalError β} (h : x.Ends w (.ok a) w₁)
    (h' : ∀ perform, f a perform w₁ = (s.mapError .raised, w')) : (x >>= f).Ends w s w' := by
  obtain ⟨fuel, h⟩ := h
  refine ⟨fuel, ?_⟩
  rw [run_bind, h]
  exact h' _

section listen

variable {w w' : World} {m : NodeId} {n : Node} (hn : w.node? m = some n)
  (connected : (connectNode m n).Ends w (.ok ()) w')
include hn connected

/-- A callback is registered when the node has been connected. -/
theorem listen_ends (key : String) (callback : Callback) :
    (perform (.listen m (some key) callback)).Ends w (.ok (.str key))
      (w'.register ⟨m, key, callback⟩) := by
  refine .perform ?_
  show (Eval.listen m (some key) callback).Ends w _ _
  unfold Eval.listen
  refine .look ?_
  rw [hn]
  exact connected.bind_apply fun _ => rfl

theorem listen_generated_ends (hm : (w'.node? m).isSome) (callback : Callback) :
    let key := Node.generatedKey m (w'.listeners m).next
    (perform (.listen m none callback)).Ends w (.ok (.str key))
      ((w'.generate m).register ⟨m, key, callback⟩) := by
  intro key
  obtain ⟨n', hn'⟩ := Option.isSome_iff_exists.mp hm
  have listeners : w'.listeners m = n'.listeners := by
    rw [World.listeners, hn']
    rfl
  have generated (perform : Task → Run Value) :
      listenerKey m none perform w' = (.ok key, w'.generate m) := by
    simp only [listenerKey, Eval.modifyGet, hn', key, World.generate, listeners]
    rfl
  refine .perform ?_
  show (Eval.listen m none callback).Ends w _ _
  unfold Eval.listen
  refine .look ?_
  rw [hn]
  refine connected.bind_apply fun perform => ?_
  rw [bind_of_ok (generated perform)]
  rfl

end listen

variable {nodes : Finset NodeId} {pending : List NodeId} {given : List Registration}
  {start w : World} {x m : NodeId}

/-- A node can be connected while nodes downstream of it are being wired. -/
def Connectable (nodes : Finset NodeId) (start : World) (x : NodeId) : Prop :=
  ∀ {pending : List NodeId} {given : List Registration} {w : World} {n : Node},
    start.SameGraph w → Connected nodes pending given w →
    (∀ p ∈ pending, Relation.TransGen (start.HasInput nodes) x p) → w.node? x = some n →
    ∃ w', (connectNode x n).Ends w (.ok ()) w' ∧ w.Gains w' ∧
      Connected nodes pending given w' ∧ w'.isWired x

/-- While a node is being wired, it listens to its inputs in turn. -/
theorem listenToInputs_ends (graph : InputGraph nodes start)
    (inputs : ∀ m, start.HasInput nodes m x → Connectable nodes start m)
    (below : ∀ p ∈ pending, p = x ∨ Relation.TransGen (start.HasInput nodes) x p)
    (same : start.SameGraph w) (connected : Connected nodes pending given w) (wired : w.isWired x)
    (values : List Value)
    (all : ∀ v ∈ values, ∀ n, v.asNode? = some n → start.HasInput nodes n.id x) :
    ∃ w', (listenToInputs x values).Ends w (.ok ()) w' ∧ w.Gains w' ∧
      Connected nodes pending given w' ∧
      ∀ v ∈ values, ∀ n, v.asNode? = some n → w'.isWired n.id ∧ w'.Lists (.relay n.id x) := by
  induction values generalizing w with
  | nil => exact ⟨w, .pure () w, .refl w, connected, List.forall_mem_nil _⟩
  | cons v rest ih =>
    have later := List.forall_mem_of_forall_mem_cons all
    cases hv : v.asNode? with
    | none =>
      obtain ⟨w', ends, gains, connected', placed⟩ := ih same connected wired later
      refine ⟨w', ?_, gains, connected', List.forall_mem_cons.mpr ⟨fun n hn => ?_, placed⟩⟩
      · rw [listenToInputs, hv]
        exact ends
      · cases hv.symm.trans hn
    | some ref =>
      have input := all v List.mem_cons_self ref hv
      have hm : ref.id ∈ nodes := graph.closed input
      obtain ⟨n, hn⟩ := Option.isSome_iff_exists.mp ((graph.of_sameGraph same).exist ref.id hm)
      have above : ∀ p ∈ pending, Relation.TransGen (start.HasInput nodes) ref.id p := by
        intro p hp
        rcases below p hp with rfl | far
        · exact .single input
        · exact .head input far
      -- the input is connected, and the relay registered on it
      obtain ⟨u, ends, gains, connected, hw⟩ := inputs ref.id input same connected above hn
      have found := (graph.of_sameGraph (same.trans gains.same)).exist ref.id hm
      have feeds : u.Feeds nodes ref.id x := by
        refine ⟨?_, gains.wired x wired⟩
        rw [(same.trans gains.same).hasInput_eq]
        exact input
      obtain ⟨connected, placing, lists⟩ := connected.relay found hm feeds
      have sofar := gains.trans placing
      obtain ⟨w', ends', gains', connected', placed⟩ :=
        ih (same.trans sofar.same) connected (sofar.wired x wired) later
      refine ⟨w', ?_, sofar.trans gains', connected', List.forall_mem_cons.mpr ⟨?_, placed⟩⟩
      · have asked : (Task.listen ref.id (some (Node.relayKey x)) (.relay x)).Allowed
            fun _ => True := trivial
        rw [listenToInputs, hv]
        exact .bind (.perform asked) (fun _ => (Protocol.listenToInputs x rest).routine)
          (listen_ends hn ends _ _) ends'
      · intro n' hn'
        cases hv.symm.trans hn'
        exact ⟨gains'.wired _ (placing.wired _ hw), gains'.lists _ lists⟩

theorem World.mem_upstream_iff {n : Node} (hn : w.node? x = some n) (trigger : n.trigger = .inputs) :
    m ∈ w.upstream x ↔ ∃ v ∈ n.inputs, ∃ ref, v.asNode? = some ref ∧ ref.id = m := by
  rw [World.upstream, hn]
  show m ∈ n.upstream ↔ _
  rw [Node.upstream, trigger]
  simp [List.mem_filterMap]

theorem World.upstream_of_variable {n : Node} {name : String} {hint : Option ScopeId}
    (hn : w.node? x = some n) (trigger : n.trigger = .variable name hint) : w.upstream x = [] := by
  rw [World.upstream, hn]
  show n.upstream = []
  rw [Node.upstream, trigger]

/-- A node that is triggered by a variable listens to that, which no node notices. -/
theorem listens_to_variable (w : World) (name : String) (hint : Option ScopeId) (x : NodeId) :
    ∃ w', (do
        match (← currentScope?).or hint with
        | some scope => listenVariable scope name (Node.relayKey x) (.relay x)
        | none => pure ()).Ends w (.ok ()) w' ∧ w'.context = w.context ∧ w'.nodes = w.nodes := by
  have current (perform : Task → Run Value) :
      currentScope? perform w = (.ok w.context.current?, w) := rfl
  cases h : w.context.current?.or hint with
  | none =>
    refine ⟨w, .of_apply fun perform => ?_, rfl, rfl⟩
    rw [bind_of_ok (current perform), h]
    rfl
  | some scope =>
    let w' := w.modifyScope (w.scopes.targetOf scope name) fun s =>
      s.listen name (Node.relayKey x) (.relay x)
    refine ⟨w', .of_apply fun perform => ?_, rfl, rfl⟩
    rw [bind_of_ok (current perform), h]
    rfl

/-- Every node of a graph can be connected. -/
theorem connectable (graph : InputGraph nodes start) : ∀ x ∈ nodes, Connectable nodes start x := by
  refine graph.upstream_induction fun x hx ih => ?_
  intro pending given w n same connected above hn
  by_cases wired : n.wired = true
  · refine ⟨w, ?_, .refl w, connected, ?_⟩
    · rw [connectNode, if_pos wired]
      exact .pure () w
    · rw [World.isWired, hn]
      exact wired
  · have found : (w.node? x).isSome := by
      rw [hn]
      rfl
    obtain ⟨marking, half⟩ := connected.wire found
    have self : (w.wire x).isWired x := (World.isWired_wire found).mpr (.inl rfl)
    rw [connectNode, if_neg wired]
    rcases trigger : n.trigger with _ | ⟨name, hint⟩
    · have input (m : NodeId) : start.HasInput nodes m x ↔
          ∃ v ∈ n.inputs, ∃ ref, v.asNode? = some ref ∧ ref.id = m := by
        rw [World.HasInput, ← same.upstream, World.mem_upstream_iff hn trigger]
        exact and_iff_right hx
      have below : ∀ p ∈ x :: pending, p = x ∨ Relation.TransGen (start.HasInput nodes) x p :=
        fun p hp => (List.mem_cons.mp hp).imp_right (above p)
      obtain ⟨w', ends, gains, connected', placed⟩ := listenToInputs_ends graph ih below
        (same.trans marking.same) half self n.inputs
        fun v hv ref href => (input ref.id).mpr ⟨v, hv, ref, href, rfl⟩
      refine ⟨w', ?_, marking.trans gains, connected'.wired fun m hm => ?_, gains.wired x self⟩
      · exact ends
      · rw [((same.trans marking.same).trans gains.same).hasInput_eq] at hm
        obtain ⟨v, hv, ref, href, rfl⟩ := (input m).mp hm
        exact placed v hv ref href
    · have alone : Connected nodes pending given (w.wire x) := by
        refine half.wired fun m hm => ?_
        rw [World.HasInput, marking.same.upstream, World.upstream_of_variable hn trigger] at hm
        cases hm.2
      obtain ⟨w', ends, context, table⟩ := listens_to_variable (w.wire x) name hint x
      obtain ⟨gains, connected'⟩ := alone.of_nodes context table
      exact ⟨w', ends, marking.trans gains, connected', gains.wired x self⟩

/-- A callback is registered on a node of a graph under a key of its own. -/
theorem listen_connects (graph : InputGraph nodes w) (connected : Connected nodes [] given w)
    (hm : m ∈ nodes) (callback : Callback) :
    ∃ key w', (perform (.listen m none callback)).Ends w (.ok (.str key)) w' ∧ w.Gains w' ∧
      Connected nodes [] (given ++ [⟨m, key, callback⟩]) w' := by
  obtain ⟨n, hn⟩ := Option.isSome_iff_exists.mp (graph.exist m hm)
  obtain ⟨u, ends, gains, connected, wired⟩ :=
    connectable graph m hm (.refl w) connected (List.forall_mem_nil _) hn
  have found := (graph.of_sameGraph gains.same).exist m hm
  obtain ⟨generating, connected'⟩ := connected.generate found
  have found' := (graph.of_sameGraph (gains.same.trans generating.same)).exist m hm
  have next : (u.listeners m).next < ((u.generate m).listeners m).next := by
    rw [World.listeners_generate found, if_pos rfl]
    exact Nat.lt_succ_self _
  -- the keys that were given were made from smaller numbers
  have new : ∀ r ∈ given, r.node = m → r.key ≠ Node.generatedKey m (u.listeners m).next := by
    rintro r hr rfl key
    obtain ⟨-, -, -, k, hk, he⟩ := connected.registered r hr
    cases Node.generatedKey_injective (he.symm.trans key)
    exact Nat.lt_irrefl _ hk
  obtain ⟨connected, placing⟩ :=
    connected'.give found' hm (generating.wired m wired) next callback new
  exact ⟨_, _, listen_generated_ends hn ends found callback,
    (gains.trans generating).trans placing, connected⟩

/-- A sequence of calls ends with the callbacks registered. -/
theorem listenAll_ends (graph : InputGraph nodes w) (connected : Connected nodes [] given w)
    (calls : List (NodeId × Callback)) (inside : ∀ call ∈ calls, call.1 ∈ nodes) :
    ∃ (more : List Registration) (w' : World),
      (listenAll calls).Ends w (.ok (more.map fun r => .str r.key)) w' ∧
      more.map (fun r => (r.node, r.callback)) = calls ∧ w.Gains w' ∧
      Connected nodes [] (given ++ more) w' := by
  induction calls generalizing given w with
  | nil => exact ⟨[], w, .pure [] w, rfl, .refl w, by rwa [List.append_nil]⟩
  | cons call rest ih =>
    obtain ⟨m, callback⟩ := call
    obtain ⟨hm, later⟩ := List.forall_mem_cons.mp inside
    obtain ⟨key, u, ends, gains, connected⟩ := listen_connects graph connected hm callback
    obtain ⟨more, w', ends', same, gains', connected'⟩ :=
      ih (graph.of_sameGraph gains.same) connected later
    refine ⟨⟨m, key, callback⟩ :: more, w', ?_, congrArg ((m, callback) :: ·) same,
      gains.trans gains', ?_⟩
    · have asked : (Task.listen m none callback).Allowed fun _ => True :=
        Task.allowed_of_forall (fun _ => trivial) _
      refine .bind (.perform asked) (fun key => .bind (listenAll_plain rest) fun _ => .pure _) ends ?_
      exact ends'.bind_apply fun _ => rfl
    · rwa [List.append_assoc] at connected'

/-- Nobody has listened to the nodes so far. -/
theorem Connected.fresh (unwired : ∀ x ∈ nodes, ¬ w.isWired x)
    (unheard : ∀ x ∈ nodes, (w.listeners x).entries = []) : Connected nodes [] [] w where
  relays hf _ := absurd hf.2 (unwired _ hf.1.1)
  listed r hr hl := by
    rw [World.Lists, unheard r.node hr] at hl
    cases hl
  registered := List.forall_mem_nil _
  unique x hx := by
    rw [unheard x hx]
    exact List.nodup_nil
  distinct := List.nodup_nil

end ReactiveScript
