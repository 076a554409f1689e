import Mathlib.Data.List.Nodup
import ReactiveScript.Proofs.Attempts
import ReactiveScript.Proofs.Discipline

/-!
# Guards of pushed scopes

Whoever pushes a scope gets a guard, which pops the scope when it is dropped. Guards may be dropped
in any order: the stack keeps the scopes whose guards are alive, in the order in which they were
pushed. What a guard that was dropped out of order leaves behind is described by the moves alone, as
the error of the first such drop since a corruption was last taken.
-/

namespace ReactiveScript

/-- What happens to a scope stack from outside. -/
inductive ScopeMove
  /-- A scope is pushed. -/
  | push (s : ScopeId)
  /-- The guard of a scope is dropped. -/
  | drop (s : ScopeId)
  /-- The corruption is taken. -/
  | take
deriving DecidableEq

namespace ScopeMove

def pushed? : ScopeMove → Option ScopeId
  | push s => some s
  | drop _ | take => none

def apply (w : World) : ScopeMove → World
  | push s => w.modifyContext fun c => c.push s
  | drop s => w.popScope s
  | take => w.clearCorruption

/-- The scopes pushed so far, in that order. -/
def pushes (moves : List ScopeMove) : List ScopeId := moves.filterMap pushed?

/-- The scopes whose guards are alive, in the order in which they were pushed. -/
def live (moves : List ScopeMove) : List ScopeId := (pushes moves).filter (drop · ∉ moves)

/-- Moves that push a scope once at most, and drop guards that are alive. -/
inductive Guarded : List ScopeMove → Prop
  | nil : Guarded []
  | push {moves : List ScopeMove} {s : ScopeId} (h : Guarded moves) (new : s ∉ pushes moves) :
      Guarded (moves ++ [.push s])
  | drop {moves : List ScopeMove} {s : ScopeId} (h : Guarded moves) (alive : s ∈ live moves) :
      Guarded (moves ++ [.drop s])
  | take {moves : List ScopeMove} (h : Guarded moves) : Guarded (moves ++ [.take])

/-- After these moves, and after the corruption was last taken, a guard was dropped that was not the
one of the scope pushed last among those alive. -/
def Misplaced (moves before : List ScopeMove) (s : ScopeId) : Prop :=
  ∃ after, moves = before ++ drop s :: after ∧ take ∉ after ∧ (live before).getLast? ≠ some s

/-- The corruption that moves leave behind: none, or what the first drop out of order found. -/
inductive Leaves (names : ScopeId → String) (moves : List ScopeMove) : Option EvalError → Prop
  | nothing (ordered : ∀ before s, ¬ Misplaced moves before s) : Leaves names moves none
  | first {before : List ScopeMove} {s : ScopeId} (misplaced : Misplaced moves before s)
      (first : ∀ before' s', Misplaced moves before' s' → before <+: before') :
      Leaves names moves (some (Context.popError names s (live before).getLast?))

variable {moves done before : List ScopeMove} {m : ScopeMove} {s t : ScopeId}

section live

@[simp] theorem pushes_push (moves : List ScopeMove) (s : ScopeId) :
    pushes (moves ++ [push s]) = pushes moves ++ [s] := List.filterMap_append

@[simp] theorem pushes_drop (moves : List ScopeMove) (s : ScopeId) :
    pushes (moves ++ [drop s]) = pushes moves :=
  List.filterMap_append.trans (List.append_nil _)

@[simp] theorem pushes_take (moves : List ScopeMove) : pushes (moves ++ [take]) = pushes moves :=
  List.filterMap_append.trans (List.append_nil _)

theorem pushes_of_mem_live (h : s ∈ live moves) : s ∈ pushes moves := (List.mem_filter.mp h).1

theorem Guarded.nodup_pushes (h : Guarded moves) : (pushes moves).Nodup := by
  induction h with
  | nil => exact .nil
  | push _ new ih =>
    rw [pushes_push]
    exact List.nodup_append'.mpr ⟨ih, List.nodup_singleton _, List.disjoint_singleton.mpr new⟩
  | drop _ _ ih => rwa [pushes_drop]
  | take _ ih => rwa [pushes_take]

theorem Guarded.nodup_live (h : Guarded moves) : (live moves).Nodup := h.nodup_pushes.filter _

/-- A guard that was dropped is the one of a scope that was pushed. -/
theorem Guarded.pushed_of_dropped (h : Guarded moves) (dropped : .drop s ∈ moves) :
    s ∈ pushes moves := by
  induction h with
  | nil => cases dropped
  | push _ _ ih =>
    rw [pushes_push]
    exact List.mem_append_left _ (ih (by simpa using dropped))
  | take _ ih =>
    rw [pushes_take]
    exact ih (by simpa using dropped)
  | drop _ alive ih =>
    rw [pushes_drop]
    rcases List.mem_append.mp dropped with earlier | last
    · exact ih earlier
    · cases List.mem_singleton.mp last
      exact pushes_of_mem_live alive

/-- What was done before a point was guarded, too. -/
theorem Guarded.of_prefix (h : Guarded moves) (so_far : done <+: moves) : Guarded done := by
  induction h with
  | nil => exact List.prefix_nil.mp so_far ▸ .nil
  | push h new ih | drop h alive ih | take h ih =>
    rcases List.prefix_concat_iff.mp so_far with rfl | earlier
    · constructor <;> assumption
    · exact ih earlier

theorem live_push (h : Guarded moves) (new : s ∉ pushes moves) :
    live (moves ++ [push s]) = live moves ++ [s] := by
  -- else the guard of the new scope would have been dropped before it was made
  have undropped : drop s ∉ moves := fun dropped => new (h.pushed_of_dropped dropped)
  simp [live, undropped]

theorem live_drop (h : Guarded moves) : live (moves ++ [drop s]) = (live moves).erase s := by
  rw [h.nodup_live.erase_eq_filter, live, live, List.filter_filter, pushes_drop]
  refine List.filter_congr fun t _ => ?_
  rw [Bool.eq_iff_iff]
  simp [and_comm]

theorem live_take (moves : List ScopeMove) : live (moves ++ [take]) = live moves := by
  simp [live]

end live

section corruption

variable {names : ScopeId → String} {e : Option EvalError}

/-- A move adds at most one misplaced drop, and none is left after the corruption was taken. -/
theorem misplaced_append_singleton :
    Misplaced (moves ++ [m]) before s ↔
      m ≠ take ∧ Misplaced moves before s ∨
        before = moves ∧ m = drop s ∧ (live moves).getLast? ≠ some s := by
  constructor
  · rintro ⟨after, same, kept, order⟩
    -- either the drop is the last move, or the last move comes after it
    rcases List.eq_nil_or_concat after with rfl | ⟨rest, last, rfl⟩
    · obtain ⟨rfl, rfl⟩ := List.append_singleton_inj.mp same
      exact .inr ⟨rfl, rfl, order⟩
    · rw [List.concat_eq_append, ← List.cons_append, ← List.append_assoc] at same
      obtain ⟨rfl, rfl⟩ := List.append_singleton_inj.mp same
      rw [List.concat_eq_append, List.mem_append, not_or] at kept
      exact .inl ⟨fun h => kept.2 (List.mem_singleton.mpr h.symm), rest, rfl, kept.1, order⟩
  · rintro (⟨other, after, rfl, kept, order⟩ | ⟨rfl, rfl, order⟩)
    · refine ⟨after ++ [m], by simp, ?_, order⟩
      rw [List.mem_append, List.mem_singleton, not_or]
      exact ⟨kept, other.symm⟩
    · exact ⟨[], rfl, List.not_mem_nil, order⟩

/-- What is left behind depends on the misplaced drops only. -/
theorem Leaves.congr {moves' : List ScopeMove} (h : Leaves names moves e)
    (same : ∀ before s, Misplaced moves' before s ↔ Misplaced moves before s) :
    Leaves names moves' e := by
  cases h with
  | nothing ordered => exact .nothing fun before s h => ordered before s ((same before s).mp h)
  | first misplaced first =>
    exact .first ((same _ _).mpr misplaced) fun before' s' h => first before' s' ((same _ _).mp h)

theorem Leaves.isSome_iff (h : Leaves names moves e) :
    e.isSome ↔ ∃ before s, Misplaced moves before s := by
  cases h with
  | nothing ordered => exact ⟨nofun, fun ⟨before, s, h⟩ => absurd h (ordered before s)⟩
  | first misplaced _ => exact ⟨fun _ => ⟨_, _, misplaced⟩, fun _ => rfl⟩

theorem Leaves.push (h : Leaves names moves e) (s : ScopeId) :
    Leaves names (moves ++ [.push s]) e :=
  h.congr fun before t => by simp [misplaced_append_singleton]

theorem Leaves.take (names : ScopeId → String) (moves : List ScopeMove) :
    Leaves names (moves ++ [.take]) none :=
  .nothing fun before s => by simp [misplaced_append_singleton]

theorem Leaves.drop_last (h : Leaves names moves e) (last : (live moves).getLast? = some s) :
    Leaves names (moves ++ [.drop s]) e :=
  h.congr fun before t => by
    rw [misplaced_append_singleton]
    constructor
    · rintro (⟨-, h⟩ | ⟨-, same, order⟩)
      · exact h
      · cases same
        exact absurd last order
    · exact fun h => .inl ⟨nofun, h⟩

/-- The first drop out of order leaves its error behind, and a later one nothing. -/
theorem Leaves.drop_other (h : Leaves names moves e) (other : (live moves).getLast? ≠ some s) :
    Leaves names (moves ++ [.drop s])
      (e.or (some (Context.popError names s (live moves).getLast?))) := by
  cases h with
  | nothing ordered =>
    refine .first (misplaced_append_singleton.mpr (.inr ⟨rfl, rfl, other⟩)) fun before' s' h => ?_
    rcases misplaced_append_singleton.mp h with ⟨-, earlier⟩ | ⟨rfl, -, -⟩
    · exact absurd earlier (ordered before' s')
    · exact List.prefix_rfl
  | @first before t misplaced first =>
    refine .first (misplaced_append_singleton.mpr (.inl ⟨nofun, misplaced⟩)) fun before' s' h => ?_
    rcases misplaced_append_singleton.mp h with ⟨-, earlier⟩ | ⟨rfl, -, -⟩
    · exact first before' s' earlier
    · -- what is recorded was dropped before this move
      obtain ⟨after, rfl, -⟩ := misplaced
      exact List.prefix_append _ _

end corruption

end ScopeMove

namespace World

variable {w : World} {s : ScopeId}

/-- A pop removes the scope from the stack, and nothing else if it is on top. -/
theorem context_popScope_of_current (h : w.context.current? = some s) :
    (w.popScope s).context = { w.context with scopes := w.context.scopes.erase s } := by
  obtain ⟨outer, top⟩ := List.head?_eq_some_iff.mp h
  rw [popScope_of_scopes top, top, List.erase_cons_head]
  rfl

theorem context_popScope_of_ne (h : w.context.current? ≠ some s) :
    (w.popScope s).context =
      { w.context with
        scopes := w.context.scopes.erase s
        corruption := w.context.corruption.or
          (some (Context.popError w.scopes.name s w.context.current?)) } := by
  simp [popScope, Context.pop, if_neg h, modifyContext, Context.noteCorruption]

def afterMoves (w : World) (moves : List ScopeMove) : World := moves.foldl ScopeMove.apply w

@[simp] theorem afterMoves_append_singleton (w : World) (moves : List ScopeMove) (m : ScopeMove) :
    w.afterMoves (moves ++ [m]) = m.apply (w.afterMoves moves) := List.foldl_append

end World

open ScopeMove

/-- On top of the scopes that were there, a stack has the ones whose guards are alive; and the
corruption is what the moves leave behind. -/
structure StacksLive (w : World) (moves : List ScopeMove) (u : World) : Prop where
  scopes : u.context.scopes = (live moves).reverse ++ w.context.scopes
  corruption : Leaves w.scopes.name moves u.context.corruption
  names : u.scopes = w.scopes

namespace StacksLive

variable {w u : World} {moves : List ScopeMove} {s : ScopeId}

theorem current? (h : StacksLive w moves u) (alive : s ∈ live moves) :
    u.context.current? = (live moves).getLast? := by
  have nonempty := List.ne_nil_of_mem (List.mem_reverse.mpr alive)
  rw [Context.current?, h.scopes, List.head?_append_of_ne_nil _ nonempty, List.head?_reverse]

theorem push (h : StacksLive w moves u) (guarded : Guarded moves) (new : s ∉ pushes moves) :
    StacksLive w (moves ++ [.push s]) (u.modifyContext fun c => c.push s) where
  scopes := by
    rw [live_push guarded new, List.reverse_append]
    exact congrArg (s :: ·) h.scopes
  corruption := h.corruption.push s
  names := h.names

theorem drop (h : StacksLive w moves u) (guarded : Guarded moves) (alive : s ∈ live moves) :
    StacksLive w (moves ++ [.drop s]) (u.popScope s) := by
  have removed : u.context.scopes.erase s =
      (live (moves ++ [.drop s])).reverse ++ w.context.scopes := by
    have reversed := List.nodup_reverse.mpr guarded.nodup_live
    rw [live_drop guarded, h.scopes, List.erase_append_left _ (List.mem_reverse.mpr alive),
      guarded.nodup_live.erase_eq_filter, reversed.erase_eq_filter, List.filter_reverse]
  have top := h.current? alive
  have names := (u.sameStore_popScope s).scopes.trans h.names
  by_cases last : (live moves).getLast? = some s
  · have popped := World.context_popScope_of_current (top.trans last)
    exact ⟨popped ▸ removed, popped ▸ h.corruption.drop_last last, names⟩
  · have popped := World.context_popScope_of_ne (fun current => last (top ▸ current))
    rw [top, h.names] at popped
    exact ⟨popped ▸ removed, popped ▸ h.corruption.drop_other last, names⟩

theorem take (h : StacksLive w moves u) : StacksLive w (moves ++ [.take]) u.clearCorruption where
  scopes := live_take moves ▸ h.scopes
  corruption := .take _ moves
  names := h.names

theorem afterMoves (fresh : w.context.corruption = none) (guarded : Guarded moves) :
    StacksLive w moves (w.afterMoves moves) := by
  induction guarded with
  | nil => exact ⟨rfl, fresh ▸ .nothing fun _ _ ⟨_, h, _⟩ => by simp at h, rfl⟩
  | push guarded new ih =>
    rw [World.afterMoves_append_singleton]
    exact ih.push guarded new
  | drop guarded alive ih =>
    rw [World.afterMoves_append_singleton]
    exact ih.drop guarded alive
  | take guarded ih =>
    rw [World.afterMoves_append_singleton]
    exact ih.take

end StacksLive

/-- However scopes are pushed and their guards dropped, at every point the stack has the scopes
whose guards are alive, in the order in which they were pushed, on top of those that were there. A
corruption is there if a guard was dropped out of order since one was last taken, and it is that of
the first such drop. Taking it gives it and clears it. -/
theorem scope_stack_follows_guards {w : World} (fresh : w.context.corruption = none)
    {moves done : List ScopeMove} (guarded : Guarded moves) (so_far : done <+: moves) :
    (w.afterMoves done).context.scopes = (live done).reverse ++ w.context.scopes ∧
      ((w.afterMoves done).context.corruption.isSome ↔ ∃ before s, Misplaced done before s) ∧
      Leaves w.scopes.name done (w.afterMoves done).context.corruption ∧
      (∀ perform, Eval.takeCorruption perform (w.afterMoves done) =
        (.ok (w.afterMoves done).context.corruption, w.afterMoves (done ++ [.take]))) ∧
      (w.afterMoves (done ++ [.take])).context.corruption = none := by
  have stack := StacksLive.afterMoves fresh (guarded.of_prefix so_far)
  rw [World.afterMoves_append_singleton]
  exact ⟨stack.scopes, stack.corruption.isSome_iff, stack.corruption, fun _ => rfl, rfl⟩

/-- Of three scopes the second one is dropped before the third, and then the first one. -/
def crossedMoves : List ScopeMove := [.push 0, .push 1, .push 2, .drop 1, .drop 0]

theorem guarded_crossedMoves : Guarded crossedMoves :=
  have pushed := @Guarded.push _ 2 (@Guarded.push _ 1 (@Guarded.push _ 0 .nil (by decide))
    (by decide)) (by decide)
  @Guarded.drop _ 0 (@Guarded.drop _ 1 pushed (by decide)) (by decide)

theorem crossed_guards :
    Guarded crossedMoves ∧ ((default : World).afterMoves crossedMoves).context.scopes = [2] ∧
      ((default : World).afterMoves crossedMoves).context.corruption.isSome := by
  obtain ⟨scopes, recorded, -⟩ := scope_stack_follows_guards (w := default) rfl
    guarded_crossedMoves List.prefix_rfl
  have misplaced : Misplaced crossedMoves [.push 0, .push 1, .push 2] 1 :=
    ⟨[.drop 0], rfl, by decide⟩
  exact ⟨guarded_crossedMoves, scopes, recorded.mpr ⟨_, _, misplaced⟩⟩

end ReactiveScript
