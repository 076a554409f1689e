import ReactiveScript.Retention
import Mathlib.Algebra.BigOperators.Group.Finset.Basic
import Mathlib.Data.Finset.Range

/-!
# Holders

What something that exists holds exists. Nodes, scopes and resources are counted by their holders,
and those without holders are released one after the other, together with what they held. As long
as this goes on, an object that is not released has all the holders that are not released either:
its count is never too low. So what the runtime holds is never released, nor is anything that can be
reached from there.
-/

namespace ReactiveScript

namespace World

variable {w : World} {counts counts' : Array Nat} {held : List Held} {i p q k : Nat}

/-- How often an object is held, given its position. -/
def occurrences (w : World) (held : List Held) (p : Nat) : Nat := (held.map w.position).count p

theorem occurrences_pos {h : Held} (hm : h ∈ held) : 0 < w.occurrences held (w.position h) :=
  List.count_pos_iff.mpr (List.mem_map_of_mem hm)

theorem occurrences_cons (h : Held) (held : List Held) :
    w.occurrences (h :: held) p = w.occurrences held p + if w.position h = p then 1 else 0 := by
  simp [occurrences, List.count_cons]

theorem countHolders_getElem? (counts : Array Nat) (held : List Held) :
    (w.countHolders counts held)[p]? = counts[p]?.map (· + w.occurrences held p) := by
  induction held generalizing counts with
  | nil => simp [countHolders, occurrences]
  | cons h held ih =>
    have step : w.countHolders counts (h :: held) =
        w.countHolders (counts.modify (w.position h) (· + 1)) held := rfl
    rw [step, ih, occurrences_cons, Array.getElem?_modify]
    split
    · cases counts[p]? with
      | none => rfl
      | some k => simp; omega
    · rfl

theorem countAll_getElem? (n : Nat) (counts : Array Nat) :
    ((List.range n).foldl (fun counts i => w.countHolders counts (w.heldAt i)) counts)[p]? =
      counts[p]?.map (· + ∑ i ∈ Finset.range n, w.occurrences (w.heldAt i) p) := by
  induction n with
  | zero => simp
  | succ n ih =>
    rw [List.range_succ, List.foldl_append, List.foldl_cons, List.foldl_nil, countHolders_getElem?,
      ih, Option.map_map, Finset.sum_range_succ]
    refine congrArg (Option.map · _) (funext fun k => ?_)
    exact Nat.add_assoc k _ _

/-- At first all holders are counted. -/
theorem holderCounts_getElem? (p : Nat) :
    w.holderCounts[p]? = (Array.replicate w.objectCount 0)[p]?.map (· + (w.occurrences w.held p +
      ∑ i ∈ Finset.range w.objectCount, w.occurrences (w.heldAt i) p)) := by
  rw [holderCounts, countAll_getElem?, countHolders_getElem?, Option.map_map]
  refine congrArg (Option.map · _) (funext fun k => ?_)
  exact Nat.add_assoc k _ _

theorem size_eq_of_getElem? {f : Nat → Nat → Nat}
    (h : ∀ p : Nat, counts'[p]? = counts[p]?.map (f p)) :
    counts'.size = counts.size := by
  have same (p : Nat) : counts'.size ≤ p ↔ counts.size ≤ p := by
    rw [← Array.getElem?_eq_none_iff, h, Option.map_eq_none_iff, Array.getElem?_eq_none_iff]
  have le := same counts.size
  have ge := same counts'.size
  omega

/-- One holder less for an object, which is freed if it was the last one. -/
def dropHolder (w : World) (state : List Nat × Array Nat) (h : Held) : List Nat × Array Nat :=
  (if state.2[w.position h]? = some 1 then w.position h :: state.1 else state.1,
    state.2.modify (w.position h) (· - 1))

theorem dropHolders_eq (counts : Array Nat) (held : List Held) :
    w.dropHolders counts held = held.foldl w.dropHolder ([], counts) := rfl

theorem dropHolder_getElem? (state : List Nat × Array Nat) (h : Held) :
    (w.dropHolder state h).2[p]? =
      state.2[p]?.map (· - if w.position h = p then 1 else 0) := by
  simp only [dropHolder, Array.getElem?_modify]
  split
  · rfl
  · cases state.2[p]? <;> rfl

theorem mem_dropHolder {state : List Nat × Array Nat} {h : Held}
    (hi : i ∈ (w.dropHolder state h).1) :
    i ∈ state.1 ∨ w.position h = i ∧ state.2[i]? = some 1 := by
  simp only [dropHolder] at hi
  split at hi
  · rcases List.mem_cons.mp hi with rfl | hi
    · exact .inr ⟨rfl, ‹_›⟩
    · exact .inl hi
  · exact .inl hi

/-- The objects that were freed so far have no holder left, and had some at first. -/
structure Freed (first : Array Nat) (state : List Nat × Array Nat) : Prop where
  nodup : state.1.Nodup
  none_left : ∀ i ∈ state.1, state.2[i]? = some 0
  some_first : ∀ i ∈ state.1, ∃ k, 0 < k ∧ first[i]? = some k
  le_first : ∀ i k : Nat, state.2[i]? = some k → ∃ k' : Nat, k ≤ k' ∧ first[i]? = some k'

theorem Freed.dropHolder {first : Array Nat} {state : List Nat × Array Nat}
    (hf : Freed first state) (h : Held) : Freed first (w.dropHolder state h) := by
  constructor
  · simp only [World.dropHolder]
    split
    · refine List.nodup_cons.mpr ⟨fun hm => ?_, hf.nodup⟩
      have := hf.none_left _ hm
      simp_all
    · exact hf.nodup
  · intro i hi
    rw [dropHolder_getElem?]
    rcases mem_dropHolder hi with hi | ⟨rfl, one⟩
    · rw [hf.none_left i hi]
      simp
    · rw [one]
      simp
  · intro i hi
    rcases mem_dropHolder hi with hi | ⟨rfl, one⟩
    · exact hf.some_first i hi
    · obtain ⟨k, le, hk⟩ := hf.le_first _ _ one
      exact ⟨k, by omega, hk⟩
  · intro i k hk
    rw [dropHolder_getElem?] at hk
    obtain ⟨k', hk', rfl⟩ := Option.map_eq_some_iff.mp hk
    obtain ⟨m, le, hm⟩ := hf.le_first i k' hk'
    exact ⟨m, by omega, hm⟩

theorem Freed.foldl {first : Array Nat} {state : List Nat × Array Nat} (hf : Freed first state)
    (held : List Held) : Freed first (held.foldl w.dropHolder state) := by
  induction held generalizing state with
  | nil => exact hf
  | cons h rest ih => exact ih (hf.dropHolder h)

theorem freed_dropHolders (counts : Array Nat) (held : List Held) :
    Freed counts (w.dropHolders counts held) := by
  have start : Freed counts ([], counts) :=
    ⟨List.nodup_nil, nofun, nofun, fun i k hk => ⟨k, Nat.le_refl k, hk⟩⟩
  exact start.foldl held

theorem foldl_dropHolder_getElem? (state : List Nat × Array Nat) (held : List Held) :
    (held.foldl w.dropHolder state).2[p]? = state.2[p]?.map (· - w.occurrences held p) := by
  induction held generalizing state with
  | nil => simp [occurrences]
  | cons h rest ih =>
    rw [List.foldl_cons, ih, dropHolder_getElem?, occurrences_cons]
    cases state.2[p]? with
    | none => rfl
    | some k => simp; omega

theorem dropHolders_getElem? (counts : Array Nat) (held : List Held) :
    (w.dropHolders counts held).2[p]? = counts[p]?.map (· - w.occurrences held p) :=
  foldl_dropHolder_getElem? ([], counts) held

/-- What waits to be released has no holder and was not released before. What was released has none
either, and everything has all the holders that were not released. -/
structure Releasing (w : World) (alive : Finset Nat) (pending : List Nat) (counts : Array Nat) :
    Prop where
  size : counts.size = w.objectCount
  nodup : pending.Nodup
  pending : ∀ i ∈ pending, i ∈ alive ∧ counts[i]? = some 0
  released : ∀ i < w.objectCount, i ∉ alive → counts[i]? = some 0
  held : ∀ i k, counts[i]? = some k →
    w.occurrences w.held i + ∑ j ∈ alive, w.occurrences (w.heldAt j) i ≤ k

theorem releasing_start :
    Releasing w (Finset.range w.objectCount)
      ((List.range w.objectCount).filter fun i => w.holderCounts[i]? = some 0) w.holderCounts where
  size := (size_eq_of_getElem? holderCounts_getElem?).trans Array.size_replicate
  nodup := List.nodup_range.filter _
  pending i hi := by simpa using hi
  released i hi out := absurd (Finset.mem_range.mpr hi) out
  held i k hk := by
    rw [holderCounts_getElem?] at hk
    obtain ⟨k', -, rfl⟩ := Option.map_eq_some_iff.mp hk
    exact Nat.le_add_left _ _

theorem Releasing.step {alive : Finset Nat} {pending : List Nat}
    (h : Releasing w alive (i :: pending) counts) :
    Releasing w (alive.erase i) ((w.dropHolders counts (w.heldAt i)).1 ++ pending)
      (w.dropHolders counts (w.heldAt i)).2 := by
  have freed := freed_dropHolders (w := w) counts (w.heldAt i)
  obtain ⟨alive_i, none_i⟩ := h.pending i List.mem_cons_self
  obtain ⟨fresh, nodup⟩ := List.nodup_cons.mp h.nodup
  have had_some {j : Nat} (hj : j ∈ (w.dropHolders counts (w.heldAt i)).1) :
      j < w.objectCount ∧ counts[j]? ≠ some 0 := by
    obtain ⟨k, pos, hk⟩ := freed.some_first j hj
    refine ⟨h.size ▸ (Array.getElem?_eq_some_iff.mp hk).1, fun none_j => ?_⟩
    cases none_j.symm.trans hk
    exact Nat.lt_irrefl 0 pos
  have none_after {j : Nat} (none_j : counts[j]? = some 0) :
      (w.dropHolders counts (w.heldAt i)).2[j]? = some 0 := by
    rw [dropHolders_getElem?, none_j]
    simp
  constructor
  · exact (size_eq_of_getElem? fun p => dropHolders_getElem? counts _).trans h.size
  · refine List.nodup_append.mpr ⟨freed.nodup, nodup, ?_⟩
    rintro j hj _ hj' rfl
    exact (had_some hj).2 (h.pending j (List.mem_cons_of_mem _ hj')).2
  · intro j hj
    rcases List.mem_append.mp hj with hj | hj
    · obtain ⟨lt, some_j⟩ := had_some hj
      have ne : j ≠ i := fun he => some_j (he ▸ none_i)
      have alive_j : j ∈ alive := by
        by_contra out
        exact some_j (h.released j lt out)
      exact ⟨Finset.mem_erase.mpr ⟨ne, alive_j⟩, freed.none_left j hj⟩
    · obtain ⟨alive_j, none_j⟩ := h.pending j (List.mem_cons_of_mem _ hj)
      exact ⟨Finset.mem_erase.mpr ⟨fun he => fresh (he ▸ hj), alive_j⟩, none_after none_j⟩
  · intro j lt out
    by_cases he : j = i
    · exact he ▸ none_after none_i
    · exact none_after (h.released j lt fun alive_j => out (Finset.mem_erase.mpr ⟨he, alive_j⟩))
  · intro j k hk
    rw [dropHolders_getElem?] at hk
    obtain ⟨k', hk', rfl⟩ := Option.map_eq_some_iff.mp hk
    have le := h.held j k' hk'
    rw [← Finset.add_sum_erase alive (fun j' => w.occurrences (w.heldAt j') j) alive_i] at le
    omega

theorem Releasing.releaseFrom {fuel : Nat} {alive : Finset Nat} {pending : List Nat}
    (h : Releasing w alive pending counts) :
    ∃ alive pending', Releasing w alive pending' (w.releaseFrom fuel pending counts) := by
  induction fuel generalizing alive pending counts with
  | zero => exact ⟨alive, pending, h⟩
  | succ fuel ih =>
    cases pending with
    | nil => exact ⟨alive, [], h⟩
    | cons i pending => exact ih h.step

/-- What can be reached from what the runtime holds. -/
inductive Retains (w : World) : Held → Prop where
  | root {h : Held} (hm : h ∈ w.held) : Retains w h
  | through {h h' : Held} (hr : Retains w h) (hm : h' ∈ w.heldAt (w.position h)) : Retains w h'

theorem lt_of_heldAt {h : Held} (hm : h ∈ w.heldAt i) : i < w.objectCount := by
  by_contra out
  have out : w.nodes.size + w.scopes.size + w.resources.size ≤ i := Nat.not_lt.mp out
  have no_node : w.nodes[i]? = none := Array.getElem?_eq_none (by omega)
  have no_scope : w.scopes[i - w.nodes.size]? = none := Array.getElem?_eq_none (by omega)
  have no_resource : w.resources[i - w.nodes.size - w.scopes.size]? = none :=
    Array.getElem?_eq_none (by omega)
  simp [heldAt, no_node, no_scope, no_resource] at hm

theorem Releasing.alive_of_some {alive : Finset Nat} {pending : List Nat}
    (h : Releasing w alive pending counts) (hi : i < w.objectCount) (hk : counts[i]? ≠ some 0) :
    i ∈ alive := by
  by_contra out
  exact hk (h.released i hi out)

/-- What can be reached has a holder to the end. -/
theorem Releasing.some_of_retains {alive : Finset Nat} {pending : List Nat}
    (h : Releasing w alive pending counts) {x : Held} (hx : w.Retains x) :
    counts[w.position x]? ≠ some 0 := by
  induction hx with
  | @root x hm =>
    intro none_x
    have le := h.held _ _ none_x
    have pos := w.occurrences_pos hm
    omega
  | @through x y hr hm ih =>
    intro none_y
    have le := h.held _ _ none_y
    have pos := w.occurrences_pos hm
    have alive_x : w.position x ∈ alive := by
      refine h.alive_of_some (lt_of_heldAt hm) ih
    have all := Finset.add_sum_erase alive
      (fun j => w.occurrences (w.heldAt j) (w.position y)) alive_x
    omega

/-- What can be reached from what the runtime holds exists. -/
theorem isHeld_of_retains {x : Held} (hx : w.Retains x) (hp : w.position x < w.objectCount) :
    w.isHeld x := by
  obtain ⟨alive, pending, releasing⟩ :=
    (releasing_start (w := w)).releaseFrom
  have some_x := releasing.some_of_retains hx
  have size : w.liveCounts.size = w.objectCount := releasing.size
  have found : w.liveCounts[w.position x]? = some w.liveCounts[w.position x] :=
    Array.getElem?_eq_getElem (size ▸ hp)
  have pos : 0 < w.liveCounts[w.position x] := by
    refine Nat.pos_of_ne_zero fun he => some_x ?_
    rw [he] at found
    exact found
  simp [isHeld, found, pos]

theorem mem_heldByEntries {entries : List (String × Value)} {e : String × Value} {h : Held}
    (he : e ∈ entries) (hm : h ∈ e.2.held) : h ∈ heldByEntries entries := by
  induction entries with
  | nil => cases he
  | cons e' rest ih =>
    rw [heldByEntries, List.mem_append]
    rcases List.mem_cons.mp he with rfl | he
    · exact .inl hm
    · exact .inr (ih he)

theorem retains_of_isKept {h : Held} (hk : w.isKept h) : w.Retains h := by
  refine .root ?_
  simp only [isKept, Bool.or_eq_true, List.contains_iff_mem, List.any_eq_true] at hk
  simp only [held, List.mem_append]
  rcases hk with hk | ⟨e, he, hm⟩
  · exact .inl (.inl (.inl (.inr hk)))
  · exact .inl (.inl (.inr (mem_heldByEntries he hm)))

/-- A node that is kept retains what it is built from. -/
theorem isHeld_of_kept_node {id k : NodeId} {n : Node} (hk : w.isKept (.node id))
    (hn : w.node? id = some n) (hm : .node k ∈ n.held) (hp : k - 1 < w.nodes.size) :
    w.isHeld (.node k) := by
  have found : w.nodes[id - 1]? = some n := by
    simp only [node?] at hn
    split at hn
    · cases hn
    · exact hn
  have holds : w.heldAt (w.position (.node id)) = n.held := by
    simp [heldAt, position, found]
  refine isHeld_of_retains (.through (retains_of_isKept hk) (holds ▸ hm)) ?_
  exact Nat.lt_of_lt_of_le hp (Nat.le_trans (Nat.le_add_right _ _) (Nat.le_add_right _ _))

end World
end ReactiveScript
