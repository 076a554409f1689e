import ReactiveScript.Proofs.Programs
import ReactiveScript.Wiring

/-!
# Changes of the world

Everything that an evaluation writes in one go, apart from the context of its line of execution and
what is in use, which are only changed for a while. A change leaves the context, what is in use, the
settings and what is kept under names as they are, and it brings in no program that is not allowed.
-/

namespace ReactiveScript

/-- One write of an evaluation; the callbacks and bodies that it brings in are restricted. -/
inductive Change (p : Action → Prop) : World → World → Prop where
  | none (w) : Change p w w
  | note (w e) : Change p w (w.note e)
  | report (w severity message fields) : Change p w (w.report severity message fields)
  | addRoot (w name) : Change p w (w.addRoot name).2
  | addChild (w parent name) : Change p w (w.addChild parent name).2
  | bind (w scope name b) : Change p w { w with scopes := w.scopes.bind scope name b }
  | listenVariable (w scope name key) {callback} (h : Callback.Allowed p callback) :
      Change p w (w.modifyScope scope fun s => s.listen name key callback)
  | wire (w id) : Change p w (w.modifyNode id fun n => { n with wired := true })
  | generateKey (w id) {n : Node} (h : w.node? id = some n) :
      Change p w (w.modifyNode id fun m =>
        { m with listeners := (n.listeners.generateKey id).2 })
  | listen (w id key) {callback} (h : Callback.Allowed p callback) :
      Change p w (w.modifyNode id fun n =>
        { n with listeners := n.listeners.register key callback })
  | unlisten (w id key) :
      Change p w (w.modifyNode id fun n => { n with listeners := n.listeners.remove key })
  | countRun (w id) : Change p w (w.modifyNode id fun n => { n with runs := n.runs + 1 })
  | constrain (w id fingerprint) :
      Change p w (w.modifyNode id fun n => { n with fingerprint := some fingerprint })
  | construct (w) {spec : NodeSpec} (h : spec.body.Allowed p) : Change p w (w.build spec).2
  | learn (w learner) : Change p w { w with learner }
  | publish (w name v) : Change p w { w with exports := w.exports.insert name v }
  | answer (w id) {r : Resource} {request : Request} (h : w.resource? id = some r)
      (hr : request.Allowed p) :
      Change p w (w.modifyResource id fun now =>
        { now with backend := (r.backend.answer request).2 })
  | settle (w id) (start target : LifecycleState) (succeeded : Bool) :
      Change p w (w.modifyResource id fun now =>
        { now with state := start.settle target now.state succeeded })
  | takeItem (w id) {name state b v queue} (h : w.resource? id = some ⟨name, state, .queue b⟩)
      (hq : b.queue.take? = some (v, queue)) :
      Change p w (w.modifyResource id fun r => { r with backend := .queue { b with queue } })
  | countDelivery (w id) :
      Change p w (w.modifyResource id fun r =>
        match r.backend with
        | .queue b => { r with backend := .queue { b with delivered := b.delivered + 1 } }
        | .recording _ => r)
  | subscribe (w : World) : Change p w { w with subscriptions := w.subscriptions.push {} }
  | follow (w id target) : Change p w (w.modifySubscription id fun s => { s with target })
  | cancel (w id) : Change p w (w.modifySubscription id fun s => { s with cancelled := true })
  | takeSlot (w slot) :
      Change p w { w with table := w.table.filter fun e => e.1 ≠ slot }
  | keep (w slot id) : Change p w { w with table := w.table ++ [(slot, id)] }

/-- A new scope has neither a handler nor listeners. -/
theorem Scope.allowed_new {p : Action → Prop} (name : String) (parent : Option ScopeId)
    (source : Option SourceText) : Scope.Allowed p { name, parent, source } where
  handler _ hh := by cases hh
  listeners _ hc := by cases hc

/-- What no write of an evaluation touches. -/
structure World.SameFrame (w w' : World) : Prop where
  context : w'.context = w.context
  inUse : w'.inUse = w.inUse
  registers : w'.registers = w.registers
  settings : w'.settings = w.settings

namespace World

variable {p : Action → Prop} {w : World}

theorem sameFrame_report (w : World) (severity : Severity) (message : String)
    (fields : List (String × String)) : w.SameFrame (w.report severity message fields) := by
  unfold report
  split <;> exact ⟨rfl, rfl, rfl, rfl⟩

@[simp] theorem context_report (w : World) (severity : Severity) (message : String)
    (fields : List (String × String)) :
    (w.report severity message fields).context = w.context :=
  (w.sameFrame_report severity message fields).context

theorem Allowed.report (h : w.Allowed p) (severity : Severity) (message : String)
    (fields : List (String × String)) : (w.report severity message fields).Allowed p := by
  unfold World.report
  split <;> exact ⟨h.nodes, h.scopes, h.resources⟩

theorem Allowed.modifyNode (h : w.Allowed p) (id : NodeId) {f : Node → Node}
    (hf : ∀ n, n.Allowed p → (f n).Allowed p) : (w.modifyNode id f).Allowed p where
  nodes i n hn := by
    simp only [World.modifyNode, Array.getElem?_modify] at hn
    split at hn
    · obtain ⟨m, hm, rfl⟩ := Option.map_eq_some_iff.mp hn
      exact hf m (h.nodes i m hm)
    · exact h.nodes i n hn
  scopes := h.scopes
  resources := h.resources

theorem Allowed.modifyScope (h : w.Allowed p) (id : ScopeId) {f : Scope → Scope}
    (hf : ∀ s, s.Allowed p → (f s).Allowed p) : (w.modifyScope id f).Allowed p where
  nodes := h.nodes
  scopes i s hs := by
    simp only [World.modifyScope, Array.getElem?_modify] at hs
    split at hs
    · obtain ⟨t, ht, rfl⟩ := Option.map_eq_some_iff.mp hs
      exact hf t (h.scopes i t ht)
    · exact h.scopes i s hs
  resources := h.resources

theorem Allowed.modifyResource (h : w.Allowed p) (id : ResourceId) {f : Resource → Resource}
    (hf : ∀ r, w.resource? id = some r → r.backend.Allowed p → (f r).backend.Allowed p) :
    (w.modifyResource id f).Allowed p where
  nodes := h.nodes
  scopes := h.scopes
  resources i r hr := by
    simp only [World.modifyResource, Array.getElem?_modify] at hr
    split at hr
    · next hi =>
      obtain ⟨s, hs, rfl⟩ := Option.map_eq_some_iff.mp hr
      exact hf s (hi ▸ hs) (h.resources i s hs)
    · exact h.resources i r hr

theorem Allowed.addScope (h : w.Allowed p) {s : Scope} (hs : s.Allowed p) :
    (w.addScope s).2.Allowed p where
  nodes := h.nodes
  scopes i t ht := by
    simp only [World.addScope, Array.getElem?_push] at ht
    split at ht
    · cases ht
      exact hs
    · exact h.scopes i t ht
  resources := h.resources

theorem Allowed.construct (h : w.Allowed p) {spec : NodeSpec} (hs : spec.body.Allowed p) :
    (w.build spec).2.Allowed p where
  nodes i n hn := by
    simp only [World.build, Array.getElem?_push] at hn
    split at hn
    · cases hn
      exact ⟨hs, AllowedCallbacks.nil⟩
    · exact h.nodes i n hn
  scopes := h.scopes
  resources := h.resources

theorem Allowed.node (h : w.Allowed p) {id : NodeId} {n : Node} (hn : w.node? id = some n) :
    n.Allowed p := by
  unfold World.node? at hn
  split at hn
  · cases hn
  · exact h.nodes _ n hn

end World

namespace Change

variable {p : Action → Prop} {w w' : World}

theorem sameFrame (h : Change p w w') : w.SameFrame w' := by
  cases h with
  | report severity message fields => exact w.sameFrame_report severity message fields
  | _ => exact ⟨rfl, rfl, rfl, rfl⟩

theorem allowed (h : Change p w w') (hw : w.Allowed p) : w'.Allowed p := by
  cases h with
  | none => exact hw
  | report severity message fields => exact hw.report severity message fields
  | addRoot name => exact hw.addScope (Scope.allowed_new name _ _)
  | addChild parent name => exact hw.addScope (Scope.allowed_new name _ _)
  | bind scope name b =>
    exact hw.modifyScope scope fun s hs => ⟨hs.handler, hs.listeners⟩
  | @listenVariable scope name key callback hc =>
    refine hw.modifyScope scope fun s hs => ⟨hs.handler, fun callbacks hcs c hm => ?_⟩
    rcases OrderedMap.eq_or_mem_of_mem_values_insert hcs with rfl | hcs
    · rcases OrderedMap.eq_or_mem_of_mem_values_insert hm with rfl | hm
      · exact hc
      · cases hf : s.listeners.find? name with
        | none => simp [hf, OrderedMap.values] at hm
        | some old =>
          rw [hf] at hm
          exact hs.listeners old (OrderedMap.mem_values_of_find? hf) c hm
    · exact hs.listeners callbacks hcs c hm
  | wire id => exact hw.modifyNode id fun n hn => ⟨hn.body, hn.listeners⟩
  | @generateKey id n hn =>
    exact hw.modifyNode id fun m hm => ⟨hm.body, (hw.node hn).listeners⟩
  | @listen id key callback hc =>
    refine hw.modifyNode id fun n hn => ⟨hn.body, fun c hm => ?_⟩
    rcases OrderedMap.eq_or_mem_of_mem_values_insert hm with rfl | hm
    · exact hc
    · exact hn.listeners c hm
  | unlisten id key =>
    exact hw.modifyNode id fun n hn =>
      ⟨hn.body, fun c hm => hn.listeners c (OrderedMap.mem_values_of_mem_erase hm)⟩
  | countRun id => exact hw.modifyNode id fun n hn => ⟨hn.body, hn.listeners⟩
  | constrain id fingerprint => exact hw.modifyNode id fun n hn => ⟨hn.body, hn.listeners⟩
  | construct hb => exact hw.construct hb
  | @answer id r request hr hq =>
    exact hw.modifyResource id fun now _ _ => (hw.resources id r hr).answer hq
  | settle id => exact hw.modifyResource id fun _ _ hr => hr
  | @takeItem id name state b v queue hr hq =>
    have hb : (Backend.queue b).Allowed p := hw.resources id _ hr
    exact hw.modifyResource id fun _ _ _ => hb
  | countDelivery id =>
    refine hw.modifyResource id fun r _ hr => ?_
    cases hb : r.backend with
    | queue b => rw [hb] at hr; exact hr
    | recording b => exact hr
  | _ => exact ⟨hw.nodes, hw.scopes, hw.resources⟩

end Change
end ReactiveScript
