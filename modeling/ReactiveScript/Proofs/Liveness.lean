import ReactiveScript.Proofs.Holders

/-!
# What exists

Counting holders keeps exactly what is held to the end: an object exists if it belongs to a set of
objects each of which is held by the runtime or by another one of the set, and such a set is what
is left in the end. So two worlds in which the same things are held keep the same things, however
often each one is held; and what the runtime holds itself may be held by others or not.
-/

namespace ReactiveScript

namespace World

variable {w : World} {counts : Array Nat} {held : List Held} {alive : Finset Nat}
  {pending : List Nat} {i : Nat}

/-- The numbers of some objects each of which is held by the runtime or by another one of them. -/
def Sustained (w : World) (s : Set Nat) : Prop :=
  ∀ i ∈ s, i < w.objectCount ∧
    (0 < w.occurrences w.held i ∨ ∃ j ∈ s, 0 < w.occurrences (w.heldAt j) i)

theorem occurrences_pos_iff : 0 < w.occurrences held i ↔ ∃ h ∈ held, w.position h = i := by
  rw [occurrences, List.count_pos_iff, List.mem_map]

theorem mem_foldl_dropHolder (held : List Held) (state : List Nat × Array Nat)
    (hi : i ∈ state.1 ∨ ∃ k : Nat, 0 < k ∧ state.2[i]? = some k)
    (none_left : (held.foldl w.dropHolder state).2[i]? = some 0) :
    i ∈ (held.foldl w.dropHolder state).1 := by
  induction held generalizing state with
  | nil =>
    refine hi.resolve_right ?_
    rintro ⟨k, pos, hk⟩
    cases hk.symm.trans none_left
    exact Nat.lt_irrefl 0 pos
  | cons h rest ih =>
    refine ih (w.dropHolder state h) ?_ none_left
    rcases hi with hi | ⟨k, pos, hk⟩
    · refine .inl ?_
      simp only [World.dropHolder]
      split
      · exact List.mem_cons_of_mem _ hi
      · exact hi
    · by_cases one : w.position h = i ∧ k = 1
      · obtain ⟨rfl, rfl⟩ := one
        refine .inl ?_
        simp only [World.dropHolder, hk, if_true]
        exact List.mem_cons_self
      · refine .inr ⟨k - if w.position h = i then 1 else 0, ?_, ?_⟩
        · split <;> omega
        · rw [dropHolder_getElem?, hk]
          rfl

/-- Whoever loses the last holder is freed. -/
theorem mem_dropHolders (counts : Array Nat) (held : List Held) {k : Nat} (pos : 0 < k)
    (hk : counts[i]? = some k) (none_left : (w.dropHolders counts held).2[i]? = some 0) :
    i ∈ (w.dropHolders counts held).1 :=
  mem_foldl_dropHolder held _ (.inr ⟨k, pos, hk⟩) none_left

/-- While objects are released the counts are exact, and all those without holders wait. -/
structure Counting (w : World) (alive : Finset Nat) (queue : List Nat) (counts : Array Nat) : Prop
    extends Releasing w alive queue counts where
  bounded : ∀ i ∈ alive, i < w.objectCount
  exact : ∀ i k, counts[i]? = some k →
    k = w.occurrences w.held i + ∑ j ∈ alive, w.occurrences (w.heldAt j) i
  waiting : ∀ i ∈ alive, counts[i]? = some 0 → i ∈ queue

theorem counting_start :
    Counting w (Finset.range w.objectCount)
      ((List.range w.objectCount).filter fun i => w.holderCounts[i]? = some 0) w.holderCounts where
  toReleasing := releasing_start
  bounded _ hi := Finset.mem_range.mp hi
  exact i k hk := by
    rw [holderCounts_getElem?] at hk
    obtain ⟨k', hk', rfl⟩ := Option.map_eq_some_iff.mp hk
    rw [Array.getElem?_replicate] at hk'
    split at hk'
    · cases hk'
      exact Nat.zero_add _
    · cases hk'
  waiting i hi none_i := by simpa [none_i] using hi

theorem Counting.step (h : Counting w alive (i :: pending) counts) :
    Counting w (alive.erase i) ((w.dropHolders counts (w.heldAt i)).1 ++ pending)
      (w.dropHolders counts (w.heldAt i)).2 where
  toReleasing := h.toReleasing.step
  bounded j hj := h.bounded j (Finset.mem_of_mem_erase hj)
  exact j k hk := by
    rw [dropHolders_getElem?] at hk
    obtain ⟨k', hk', rfl⟩ := Option.map_eq_some_iff.mp hk
    have exact := h.exact j k' hk'
    have alive_i := (h.pending i List.mem_cons_self).1
    rw [← Finset.add_sum_erase alive (fun j' => w.occurrences (w.heldAt j') j) alive_i] at exact
    omega
  waiting j hj none_j := by
    obtain ⟨ne, alive_j⟩ := Finset.mem_erase.mp hj
    rw [List.mem_append]
    have found : counts[j]? = some counts[j]! := by
      have lt : j < counts.size := h.size ▸ h.bounded j alive_j
      simp [lt]
    by_cases none_before : counts[j]! = 0
    · rw [none_before] at found
      exact .inr ((List.mem_cons.mp (h.waiting j alive_j found)).resolve_left ne)
    · exact .inl (mem_dropHolders counts _ (Nat.pos_of_ne_zero none_before) found none_j)

/-- There is fuel enough to release everything that is to be released. -/
theorem Counting.releaseFrom {fuel : Nat} (h : Counting w alive pending counts)
    (enough : alive.card < fuel) :
    ∃ alive, Counting w alive [] (w.releaseFrom fuel pending counts) := by
  induction fuel generalizing alive pending counts with
  | zero => exact absurd enough (Nat.not_lt_zero _)
  | succ fuel ih =>
    cases pending with
    | nil => exact ⟨alive, h⟩
    | cons i pending =>
      have alive_i := (h.pending i List.mem_cons_self).1
      refine ih h.step ?_
      rw [Finset.card_erase_of_mem alive_i]
      have := Finset.card_pos.mpr ⟨i, alive_i⟩
      omega

/-- What sustains itself is not released. -/
theorem Sustained.subset_releaseFrom {s : Set Nat} (hs : w.Sustained s) {fuel : Nat}
    (h : Releasing w alive pending counts) (sub : ∀ i ∈ s, i ∈ alive) :
    ∀ i ∈ s, (w.releaseFrom fuel pending counts)[i]? ≠ some 0 := by
  have positive {alive : Finset Nat} {pending : List Nat} {counts : Array Nat}
      (h : Releasing w alive pending counts) (sub : ∀ i ∈ s, i ∈ alive) (i : Nat) (hi : i ∈ s) :
      counts[i]? ≠ some 0 := by
    intro none_i
    have le := h.held i 0 none_i
    obtain ⟨-, root | ⟨j, hj, holds⟩⟩ := hs i hi
    · omega
    · have := Finset.add_sum_erase alive (fun j => w.occurrences (w.heldAt j) i) (sub j hj)
      omega
  induction fuel generalizing alive pending counts with
  | zero => exact positive h sub
  | succ fuel ih =>
    cases pending with
    | nil => exact positive h sub
    | cons i pending =>
      refine ih h.step fun j hj => Finset.mem_erase.mpr ⟨?_, sub j hj⟩
      rintro rfl
      exact positive h sub j hj (h.pending j List.mem_cons_self).2

/-- Something is held to the end if it belongs to a set that sustains itself. -/
theorem liveCounts_iff (i : Nat) :
    (∃ k, 0 < k ∧ w.liveCounts[i]? = some k) ↔ ∃ s, w.Sustained s ∧ i ∈ s := by
  have released : ∃ alive, Counting w alive [] w.liveCounts := counting_start.releaseFrom (by simp)
  obtain ⟨alive, counted⟩ := released
  constructor
  · rintro ⟨k, pos, hk⟩
    have some_of_alive {j : Nat} (hj : j ∈ alive) : ∃ k, 0 < k ∧ w.liveCounts[j]? = some k := by
      have lt : j < w.liveCounts.size := counted.size ▸ counted.bounded j hj
      refine ⟨w.liveCounts[j], Nat.pos_of_ne_zero fun none_j => ?_, Array.getElem?_eq_getElem lt⟩
      have := counted.waiting j hj (by rw [Array.getElem?_eq_getElem lt, none_j])
      cases this
    refine ⟨{j | j ∈ alive}, fun j hj => ⟨counted.bounded j hj, ?_⟩, ?_⟩
    · obtain ⟨k, pos, hk⟩ := some_of_alive hj
      by_contra none
      push Not at none
      have exact := counted.exact j k hk
      rw [Finset.sum_eq_zero fun j' hj' => Nat.le_zero.mp (none.2 j' hj')] at exact
      omega
    · have lt : i < w.objectCount := by
        rw [← counted.size]
        exact (Array.getElem?_eq_some_iff.mp hk).1
      refine counted.alive_of_some lt fun none_i => ?_
      cases hk.symm.trans none_i
      exact Nat.lt_irrefl 0 pos
  · rintro ⟨s, hs, hi⟩
    have some_i : w.liveCounts[i]? ≠ some 0 :=
      hs.subset_releaseFrom releasing_start (fun j hj => Finset.mem_range.mpr (hs j hj).1) i hi
    have lt : i < w.liveCounts.size := counted.size ▸ (hs i hi).1
    refine ⟨w.liveCounts[i], Nat.pos_of_ne_zero fun none_i => some_i ?_,
      Array.getElem?_eq_getElem lt⟩
    rw [Array.getElem?_eq_getElem lt, none_i]

theorem isHeld_iff (h : Held) :
    w.isHeld h ↔ w.isKept h ∨ ∃ s, w.Sustained s ∧ w.position h ∈ s := by
  rw [← liveCounts_iff, isHeld, Bool.or_eq_true, Option.any_eq_true]
  simp only [decide_eq_true_eq, and_comm]

section congr

variable {v : World}

/-- Whatever is held in one world is held in another one, by the runtime if by nothing else. -/
structure HeldIn (w v : World) : Prop where
  nodes : w.nodes.size = v.nodes.size
  scopes : w.scopes.size = v.scopes.size
  resources : w.resources.size = v.resources.size
  roots : ∀ h ∈ w.held, h ∈ v.held
  parts : ∀ i, ∀ h ∈ w.heldAt i, h ∈ v.heldAt i ∨ h ∈ v.held

theorem HeldIn.position (hwv : w.HeldIn v) (h : Held) : w.position h = v.position h := by
  cases h <;> simp only [World.position, hwv.nodes, hwv.scopes]

theorem HeldIn.sustained (hwv : w.HeldIn v) {s : Set Nat} (hs : w.Sustained s) :
    v.Sustained s := by
  intro i hi
  obtain ⟨lt, holds⟩ := hs i hi
  simp only [occurrences_pos_iff, hwv.position] at holds ⊢
  refine ⟨?_, ?_⟩
  · rw [objectCount, ← hwv.nodes, ← hwv.scopes, ← hwv.resources]
    exact lt
  · rcases holds with ⟨h, hm, at_i⟩ | ⟨j, hj, h, hm, at_i⟩
    · exact .inl ⟨h, hwv.roots h hm, at_i⟩
    · rcases hwv.parts j h hm with hm | hm
      · exact .inr ⟨j, hj, h, hm, at_i⟩
      · exact .inl ⟨h, hm, at_i⟩

/-- The same things exist if the same things are held. -/
theorem isHeld_congr (hwv : w.HeldIn v) (hvw : v.HeldIn w) {h : Held}
    (kept : w.isKept h = v.isKept h) : w.isHeld h = v.isHeld h := by
  rw [Bool.eq_iff_iff, isHeld_iff, isHeld_iff, kept, hwv.position]
  refine or_congr_right ⟨?_, ?_⟩
  · rintro ⟨s, hs, hi⟩
    exact ⟨s, hwv.sustained hs, hi⟩
  · rintro ⟨s, hs, hi⟩
    exact ⟨s, hvw.sustained hs, hi⟩

end congr

end World
end ReactiveScript
