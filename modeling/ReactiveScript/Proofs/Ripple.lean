import Mathlib.Data.Finset.Card
import Mathlib.Data.Finset.Powerset
import Mathlib.Data.Finset.Prod
import ReactiveScript.Program

/-!
# Ripples

What a notification does to the marks of a wiring, apart from everything else: a marked node loses
its mark; any other node is marked, the nodes that its listeners notify are notified in order, and
its mark is taken away. Whether this ends depends on the wiring alone, and it can be found out: a
ripple through finitely many nodes that has not ended at a certain depth never does.
-/

namespace ReactiveScript

/-- The marks after a notification of a node, whose listeners notify the nodes `wiring node` in
order. The depth bounds how deep notifications nest. -/
def ripple (wiring : NodeId → List NodeId) :
    Nat → NodeId → Finset NodeId → Option (Finset NodeId)
  | 0, _, _ => none
  | depth + 1, node, marks =>
    if node ∈ marks then some (marks.erase node)
    else ((wiring node).foldlM (fun marks n => ripple wiring depth n marks)
      (insert node marks)).map fun marks => marks.erase node

/-- The ripple of notifying nodes one after the other. -/
def ripples (wiring : NodeId → List NodeId) (depth : Nat) (nodes : List NodeId)
    (marks : Finset NodeId) : Option (Finset NodeId) :=
  nodes.foldlM (fun marks n => ripple wiring depth n marks) marks

/-- How deep a ripple through finitely many nodes can go if it ends. -/
def rippleBound (nodes : Finset NodeId) : Nat := nodes.card * 2 ^ nodes.card

variable {wiring : NodeId → List NodeId} {depth more : Nat} {node : NodeId}
  {marks marks' : Finset NodeId}

theorem ripple_of_marked (h : node ∈ marks) :
    ripple wiring (depth + 1) node marks = some (marks.erase node) := if_pos h

theorem ripple_of_not_marked (h : node ∉ marks) :
    ripple wiring (depth + 1) node marks =
      (ripples wiring depth (wiring node) (insert node marks)).map fun marks =>
        marks.erase node := if_neg h

theorem ripples_cons (nodes : List NodeId) :
    ripples wiring depth (node :: nodes) marks =
      (ripple wiring depth node marks).bind (ripples wiring depth nodes) := rfl

@[simp] theorem ripples_singleton :
    ripples wiring depth [node] marks = ripple wiring depth node marks := by
  simp [ripples]

theorem ripples_append (first second : List NodeId) :
    ripples wiring depth (first ++ second) marks =
      (ripples wiring depth first marks).bind (ripples wiring depth second) :=
  List.foldlM_append

/-- Ripples that agree where they have ended, agree on several nodes in turn. -/
theorem ripples_of_ripple {nodes : List NodeId}
    (h : ∀ n ∈ nodes, ∀ m m', ripple wiring depth n m = some m' →
      ripple wiring more n m = some m')
    (hm : ripples wiring depth nodes marks = some marks') :
    ripples wiring more nodes marks = some marks' := by
  induction nodes generalizing marks with
  | nil => exact hm
  | cons n rest ih =>
    rw [ripples_cons] at hm ⊢
    obtain ⟨m, hn, hr⟩ := Option.bind_eq_some_iff.mp hm
    rw [h n (by simp) _ _ hn]
    exact ih (fun n hn => h n (List.mem_cons_of_mem _ hn)) hr

/-- A ripple that has ended is the same at any greater depth. -/
theorem ripple_of_le (h : depth ≤ more) (hm : ripple wiring depth node marks = some marks') :
    ripple wiring more node marks = some marks' := by
  induction depth generalizing more node marks marks' with
  | zero => cases hm
  | succ depth ih =>
    obtain ⟨more, rfl⟩ : ∃ k, more = k + 1 := ⟨more - 1, by omega⟩
    by_cases hn : node ∈ marks
    · rwa [ripple_of_marked hn] at hm ⊢
    · rw [ripple_of_not_marked hn] at hm ⊢
      obtain ⟨m, hr, rfl⟩ := Option.map_eq_some_iff.mp hm
      have hle : depth ≤ more := by omega
      rw [ripples_of_ripple (fun n _ m m' h => ih hle h) hr]
      rfl

theorem ripples_of_le (h : depth ≤ more) {nodes : List NodeId}
    (hm : ripples wiring depth nodes marks = some marks') :
    ripples wiring more nodes marks = some marks' :=
  ripples_of_ripple (fun _ _ _ _ => ripple_of_le h) hm

/-- A node that is notified twice by its own listeners ripples forever: the first time takes away
its mark, and the second time it is announced again. -/
theorem ripple_twice (h : wiring node = [node, node]) (hn : node ∉ marks) :
    ripple wiring depth node marks = none := by
  induction depth with
  | zero => rfl
  | succ depth ih =>
    rw [ripple_of_not_marked hn, h, ripples_cons]
    cases depth with
    | zero => rfl
    | succ depth =>
      rw [ripple_of_marked (Finset.mem_insert_self node marks), Finset.erase_insert hn,
        Option.bind_some, ripples_singleton, ih]
      rfl

/-- A ripple ends at a depth and not before. -/
def EndsExactly (wiring : NodeId → List NodeId) (depth : Nat) (node : NodeId)
    (marks : Finset NodeId) : Prop :=
  (ripple wiring (depth + 1) node marks).isSome ∧ ripple wiring depth node marks = none

theorem EndsExactly.depth_unique (h : EndsExactly wiring depth node marks)
    (h' : EndsExactly wiring more node marks) : depth = more := by
  have lt {d e : Nat} (h : EndsExactly wiring d node marks)
      (h' : EndsExactly wiring e node marks) : ¬ d < e := by
    intro hlt
    obtain ⟨m, hm⟩ := Option.isSome_iff_exists.mp h.1
    have := ripple_of_le hlt hm
    simp [h'.2] at this
  have := lt h h'
  have := lt h' h
  omega

/-- Marks of other nodes neither matter to a ripple nor are they touched. -/
theorem ripple_inter {nodes : Finset NodeId}
    (closed : ∀ n ∈ nodes, ∀ m ∈ wiring n, m ∈ nodes) (hn : node ∈ nodes) :
    ripple wiring depth node (marks ∩ nodes) =
      (ripple wiring depth node marks).map fun marks => marks ∩ nodes := by
  induction depth generalizing node marks with
  | zero => rfl
  | succ depth ih =>
    have all {list : List NodeId} (hl : ∀ n ∈ list, n ∈ nodes) (m : Finset NodeId) :
        ripples wiring depth list (m ∩ nodes) =
          (ripples wiring depth list m).map fun marks => marks ∩ nodes := by
      induction list generalizing m with
      | nil => rfl
      | cons n rest ih' =>
        rw [ripples_cons, ripples_cons, ih (hl n (by simp))]
        cases ripple wiring depth n m with
        | none => rfl
        | some m => exact ih' (fun n hn => hl n (List.mem_cons_of_mem _ hn)) m
    by_cases hmem : node ∈ marks
    · rw [ripple_of_marked hmem, ripple_of_marked (Finset.mem_inter.mpr ⟨hmem, hn⟩)]
      simp [Finset.erase_inter]
    · have hmem' : node ∉ marks ∩ nodes := fun h => hmem (Finset.mem_inter.mp h).1
      rw [ripple_of_not_marked hmem, ripple_of_not_marked hmem',
        ← Finset.insert_inter_of_mem hn, all (closed node hn)]
      cases ripples wiring depth (wiring node) (insert node marks) with
      | none => rfl
      | some m => simp [Finset.erase_inter]

section bound

variable {nodes : Finset NodeId} (closed : ∀ n ∈ nodes, ∀ m ∈ wiring n, m ∈ nodes)
include closed

/-- Only nodes of the wiring are ever marked. -/
theorem ripple_subset (hn : node ∈ nodes) (hs : marks ⊆ nodes)
    (hm : ripple wiring depth node marks = some marks') : marks' ⊆ nodes := by
  induction depth generalizing node marks marks' with
  | zero => cases hm
  | succ depth ih =>
    have all {list : List NodeId} (hl : ∀ n ∈ list, n ∈ nodes) {m m' : Finset NodeId}
        (hs : m ⊆ nodes) (hm : ripples wiring depth list m = some m') : m' ⊆ nodes := by
      induction list generalizing m with
      | nil =>
        cases hm
        exact hs
      | cons n rest ih' =>
        rw [ripples_cons] at hm
        obtain ⟨m₁, hn, hr⟩ := Option.bind_eq_some_iff.mp hm
        exact ih' (fun n hn => hl n (List.mem_cons_of_mem _ hn)) (ih (hl n (by simp)) hs hn) hr
    by_cases hmem : node ∈ marks
    · rw [ripple_of_marked hmem] at hm
      cases hm
      exact (Finset.erase_subset _ _).trans hs
    · rw [ripple_of_not_marked hmem] at hm
      obtain ⟨m, hr, rfl⟩ := Option.map_eq_some_iff.mp hm
      exact (Finset.erase_subset _ _).trans
        (all (closed node hn) (Finset.insert_subset hn hs) hr)

theorem exists_endsExactly_of_ripples {list : List NodeId} (hl : ∀ n ∈ list, n ∈ nodes)
    (hs : marks ⊆ nodes) (hm : (ripples wiring (depth + 1) list marks).isSome)
    (hd : ripples wiring depth list marks = none) :
    ∃ n ∈ nodes, ∃ m ⊆ nodes, EndsExactly wiring depth n m := by
  induction list generalizing marks with
  | nil => cases hd
  | cons n rest ih =>
    rw [ripples_cons] at hm hd
    have hn := hl n (by simp)
    cases he : ripple wiring depth n marks with
    | none =>
      refine ⟨n, hn, marks, hs, ?_, he⟩
      cases h : ripple wiring (depth + 1) n marks with
      | none => simp [h] at hm
      | some m => rfl
    | some m =>
      have he' := ripple_of_le (Nat.le_succ depth) he
      rw [he'] at hm
      rw [he] at hd
      exact ih (fun n hn => hl n (List.mem_cons_of_mem _ hn))
        (ripple_subset closed hn hs he) hm hd

/-- A ripple that ends at a depth has one in it that ends one level less deep. -/
theorem EndsExactly.exists_nested (hn : node ∈ nodes) (hs : marks ⊆ nodes)
    (h : EndsExactly wiring (depth + 1) node marks) :
    ∃ n ∈ nodes, ∃ m ⊆ nodes, EndsExactly wiring depth n m := by
  obtain ⟨hm, hd⟩ := h
  have hmem : node ∉ marks := by
    intro hmem
    simp [ripple_of_marked hmem] at hd
  rw [ripple_of_not_marked hmem] at hm hd
  exact exists_endsExactly_of_ripples closed (closed node hn) (Finset.insert_subset hn hs)
    (by simpa using hm) (by simpa using hd)

theorem EndsExactly.exists_of_le (hn : node ∈ nodes) (hs : marks ⊆ nodes)
    (h : EndsExactly wiring depth node marks) (hle : more ≤ depth) :
    ∃ n ∈ nodes, ∃ m ⊆ nodes, EndsExactly wiring more n m := by
  induction depth generalizing node marks with
  | zero =>
    obtain rfl : more = 0 := by omega
    exact ⟨node, hn, marks, hs, h⟩
  | succ depth ih =>
    by_cases heq : more = depth + 1
    · subst heq
      exact ⟨node, hn, marks, hs, h⟩
    · obtain ⟨n, hn, m, hs, h⟩ := h.exists_nested closed hn hs
      exact ih hn hs h (by omega)

/-- Ripples of different depths start differently, and there are only so many ways to start. -/
theorem EndsExactly.lt_bound (hn : node ∈ nodes) (hs : marks ⊆ nodes)
    (h : EndsExactly wiring depth node marks) : depth < rippleBound nodes := by
  have start (d : Nat) : ∃ s : NodeId × Finset NodeId, d ≤ depth →
      s ∈ nodes ×ˢ nodes.powerset ∧ EndsExactly wiring d s.1 s.2 := by
    by_cases hd : d ≤ depth
    · obtain ⟨n, hn, m, hm, he⟩ := h.exists_of_le closed hn hs hd
      exact ⟨(n, m), fun _ => ⟨by simp [hn, hm], he⟩⟩
    · exact ⟨(node, marks), fun hle => absurd hle hd⟩
  choose s hs using start
  have injective : Set.InjOn s (Finset.range (depth + 1)) := by
    intro d hd e he heq
    simp only [Finset.coe_range, Set.mem_Iio] at hd he
    have hd := (hs d (by omega)).2
    rw [heq] at hd
    exact hd.depth_unique (hs e (by omega)).2
  have card := Finset.card_le_card_of_injOn s (fun d hd => by
    simp only [Finset.coe_range, Set.mem_Iio] at hd
    exact (hs d (by omega)).1) injective
  rw [Finset.card_range, Finset.card_product, Finset.card_powerset] at card
  exact card

/-- A ripple through finitely many nodes ends within the bound or never. -/
theorem ripple_isSome_iff (hn : node ∈ nodes) (hs : marks ⊆ nodes) :
    (∃ depth, (ripple wiring depth node marks).isSome) ↔
      (ripple wiring (rippleBound nodes) node marks).isSome := by
  refine ⟨fun h => ?_, fun h => ⟨_, h⟩⟩
  obtain ⟨depth, hd, least⟩ : ∃ depth, (ripple wiring depth node marks).isSome ∧
      ∀ d < depth, ¬ (ripple wiring d node marks).isSome :=
    ⟨Nat.find h, Nat.find_spec h, fun d hd => Nat.find_min h hd⟩
  cases depth with
  | zero => cases hd
  | succ depth =>
    have exact : EndsExactly wiring depth node marks :=
      ⟨hd, by simpa using least depth (Nat.lt_succ_self depth)⟩
    obtain ⟨m, hm⟩ := Option.isSome_iff_exists.mp hd
    rw [ripple_of_le (exact.lt_bound closed hn hs) hm]
    rfl

end bound

end ReactiveScript
