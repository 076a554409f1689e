import ReactiveScript.Evaluation.Forcing
import ReactiveScript.Proofs.MapLaws
import ReactiveScript.Proofs.Outcomes

/-!
# Edits of ordered maps

What a map goes through one edit after the other, beside the same edits of a plain list of pairs.
The map is searched and rebuilt by its own operations; the list is cut and joined. The function
that is applied to the values may fail and have effects, so that edits take place in a monad.
-/

namespace ReactiveScript

namespace OrderedMap

variable {α β γ : Type} {m : OrderedMap α} {M : Type → Type}

/-- The entries in reverse, entered one after the other. -/
def reversed (m : OrderedMap α) : OrderedMap α := ofPairs m.reverse

theorem reversed_eq_reverse (unique : m.UniqueKeys) : m.reversed = m.reverse :=
  ofPairs_of_uniqueKeys (uniqueKeys_reverse unique)

/-- The map with every value replaced by what a function gives for it, entered one after the other. -/
def tryMapValues [Monad M] (f : α → M β) (m : OrderedMap α) : M (OrderedMap β) :=
  m.foldlM (fun out e => do return out.insert e.1 (← f e.2)) []

section gives

/-- Whatever an evaluation ends with is a map in which no key occurs twice. -/
def GivesUnique [Monad M] (x : M (OrderedMap α)) : Prop :=
  ∃ y : M {m : OrderedMap α // m.UniqueKeys}, Subtype.val <$> y = x

variable [Monad M] [LawfulMonad M] {x : M (OrderedMap α)}

theorem GivesUnique.pure (unique : m.UniqueKeys) : GivesUnique (Pure.pure m : M (OrderedMap α)) :=
  ⟨Pure.pure ⟨m, unique⟩, map_pure _ _⟩

theorem GivesUnique.of_bind {x : M β} {f : β → M (OrderedMap α)} (hf : ∀ b, GivesUnique (f b)) :
    GivesUnique (x >>= f) := by
  choose g hg using hf
  exact ⟨x >>= g, by rw [map_bind, funext hg]⟩

theorem GivesUnique.bind {f : OrderedMap α → M (OrderedMap β)} (hx : GivesUnique x)
    (hf : ∀ m, m.UniqueKeys → GivesUnique (f m)) : GivesUnique (x >>= f) := by
  obtain ⟨y, rfl⟩ := hx
  rw [bind_map_left]
  exact .of_bind fun m => hf m.1 m.2

/-- What follows depends on maps without a repeated key only. -/
theorem GivesUnique.bind_congr {f g : OrderedMap α → M β} (hx : GivesUnique x)
    (same : ∀ m, m.UniqueKeys → f m = g m) : x >>= f = x >>= g := by
  obtain ⟨y, rfl⟩ := hx
  rw [bind_map_left, bind_map_left]
  exact congrArg (y >>= ·) (funext fun m => same m.1 m.2)

theorem GivesUnique.foldlM {step : OrderedMap α → γ → M (OrderedMap α)}
    (hstep : ∀ m c, m.UniqueKeys → GivesUnique (step m c)) (cs : List γ) (unique : m.UniqueKeys) :
    GivesUnique (cs.foldlM step m) := by
  induction cs generalizing m with
  | nil => exact .pure unique
  | cons c rest ih =>
    rw [List.foldlM_cons]
    exact (hstep m c unique).bind fun _ unique => ih unique

theorem givesUnique_tryMapValues (f : α → M β) (m : OrderedMap α) :
    GivesUnique (m.tryMapValues f) :=
  .foldlM (fun _ e unique => .of_bind fun b => .pure (uniqueKeys_insert unique e.1 b)) m
    uniqueKeys_nil

/-- Values that are entered under new keys come behind what is there, under their keys and in their
order. -/
theorem foldlM_insert_eq_mapM (f : α → M β) (out : OrderedMap β)
    (unique : (out.keys ++ m.keys).Nodup) :
    m.foldlM (fun out e => do return out.insert e.1 (← f e.2)) out =
      (out ++ ·) <$> m.mapM fun e => (e.1, ·) <$> f e.2 := by
  induction m generalizing out with
  | nil => simp
  | cons e rest ih =>
    obtain ⟨k, v⟩ := e
    have next : keys ((k, v) :: rest) = k :: keys rest := rfl
    rw [next] at unique
    have fresh : k ∉ out.keys := fun h =>
      (List.nodup_append.mp unique).2.2 k h k List.mem_cons_self rfl
    have later (b : β) : (keys (out ++ [(k, b)]) ++ keys rest).Nodup := by
      rw [keys_append, List.append_assoc]
      exact unique
    simp only [List.foldlM_cons, List.mapM_cons, bind_assoc, pure_bind, map_bind, bind_map_left,
      map_pure]
    refine congrArg (f v >>= ·) (funext fun b => ?_)
    rw [insert_of_notMem fresh, ih _ (later b), map_eq_pure_bind]
    simp

theorem tryMapValues_eq_mapM (f : α → M β) (unique : m.UniqueKeys) :
    m.tryMapValues f = m.mapM fun e => (e.1, ·) <$> f e.2 := by
  rw [tryMapValues, foldlM_insert_eq_mapM f [] unique]
  simp

end gives

end OrderedMap

open OrderedMap

/-- The values of a map are forced by the rule of `OrderedMap.tryMapValues`: in order, up to the
first failure, each under its key. -/
theorem Eval.forceEntries_eq_tryMapValues {parallel single : Bool} {depth : Nat}
    {entries : OrderedMap Value} {f : Value → Except EvalError Value} (unique : entries.UniqueKeys)
    (forced : ∀ v ∈ entries.values, force parallel v depth = ofExcept (f v)) :
    forceEntries parallel single entries depth = ofExcept (entries.tryMapValues f) := by
  rw [tryMapValues_eq_mapM f unique]
  induction entries with
  | nil => rfl
  | cons e rest ih =>
    obtain ⟨k, v⟩ := e
    obtain ⟨first, others⟩ := List.forall_mem_cons.mp forced
    have later := ih (uniqueKeys_cons.mp unique).2 others
    rw [forceEntries, first, later, child_ofExcept, List.mapM_cons]
    cases f v with
    | error e => rfl
    | ok w => cases rest.mapM fun e => (e.1, ·) <$> f e.2 <;> rfl

/-- An edit of a map. -/
inductive MapEdit (M : Type → Type) (α : Type) where
  /-- Binds a key, in its place if it is there. -/
  | insert (key : String) (value : α)
  /-- Binds a key in front of all others. -/
  | insertFirst (key : String) (value : α)
  | erase (key : String)
  /-- Writes the entries of another map over those of the map. -/
  | merge (other : {m : OrderedMap α // m.UniqueKeys})
  | withoutKeys (removed : List String)
  | reverse
  /-- Applies a function, which may fail, to every value. -/
  | mapValues (f : α → M α)

namespace MapEdit

variable {M : Type → Type} [Monad M] {α : Type} {m : OrderedMap α}

/-- Carries out an edit on a map. -/
def apply : MapEdit M α → OrderedMap α → M (OrderedMap α)
  | insert key v, m => pure (m.insert key v)
  | insertFirst key v, m => pure (m.insertFirst key v)
  | erase key, m => pure (m.erase key)
  | merge other, m => pure (m.merged other)
  | withoutKeys removed, m => pure (OrderedMap.withoutKeys m removed)
  | reverse, m => pure m.reversed
  | mapValues f, m => m.tryMapValues f

/-- Carries out an edit on a list of pairs. -/
def onPairs : MapEdit M α → List (String × α) → M (List (String × α))
  | insert key v, pairs =>
    if pairs.any (·.1 = key) then pure (pairs.map fun e => if e.1 = key then (key, v) else e)
    else pure (pairs ++ [(key, v)])
  | insertFirst key v, pairs => pure ((key, v) :: pairs.eraseP (·.1 = key))
  | erase key, pairs => pure (pairs.eraseP (·.1 = key))
  | merge other, pairs =>
    pure (pairs.map (fun e => (e.1, (other.1.lookup e.1).getD e.2)) ++
      other.1.filter fun e => !pairs.any (·.1 = e.1))
  | withoutKeys removed, pairs => pure (pairs.filter fun e => e.1 ∉ removed)
  | reverse, pairs => pure pairs.reverse
  | mapValues f, pairs => pairs.mapM fun e => (e.1, ·) <$> f e.2

/-- Carries out edits one after the other. -/
def applyAll (edits : List (MapEdit M α)) (m : OrderedMap α) : M (OrderedMap α) :=
  edits.foldlM (fun m edit => edit.apply m) m

def allOnPairs (edits : List (MapEdit M α)) (pairs : List (String × α)) :
    M (List (String × α)) :=
  edits.foldlM (fun pairs edit => edit.onPairs pairs) pairs

variable [LawfulMonad M]

/-- No edit makes a key occur twice. -/
theorem givesUnique_apply (edit : MapEdit M α) (unique : m.UniqueKeys) :
    GivesUnique (edit.apply m) := by
  cases edit with
  | insert key v => exact .pure (uniqueKeys_insert unique key v)
  | insertFirst key v => exact .pure (uniqueKeys_insertFirst unique key v)
  | erase key => exact .pure (uniqueKeys_erase unique key)
  | merge other => exact .pure (uniqueKeys_merged unique other.1)
  | withoutKeys removed => exact .pure (uniqueKeys_withoutKeys unique removed)
  | reverse => exact .pure (uniqueKeys_ofPairs m.reverse)
  | mapValues f => exact givesUnique_tryMapValues f m

theorem any_key_iff (m : OrderedMap α) (key : String) : m.any (·.1 = key) ↔ key ∈ m.keys := by
  simp [OrderedMap.keys]

/-- An edit does to a map what it does to the list of its entries. -/
theorem apply_eq_onPairs (edit : MapEdit M α) (unique : m.UniqueKeys) :
    edit.apply m = edit.onPairs m := by
  cases edit with
  | insert key v =>
    by_cases h : key ∈ m.keys
    · rw [onPairs, if_pos ((any_key_iff m key).mpr h), ← insert_of_mem unique h]
      rfl
    · rw [onPairs, if_neg (mt (any_key_iff m key).mp h), ← insert_of_notMem h]
      rfl
  | insertFirst key v => rw [apply, onPairs, OrderedMap.insertFirst, erase_eq_eraseP unique]
  | erase key => rw [apply, onPairs, erase_eq_eraseP unique]
  | merge other =>
    have new (e : String × α) : (!m.any (·.1 = e.1)) = decide (e.1 ∉ m.keys) := by
      rw [Bool.eq_iff_iff, Bool.not_eq_true', decide_eq_true_iff, ← any_key_iff m e.1,
        Bool.not_eq_true]
    simp only [apply, onPairs, merged_eq_map_append unique other.2, find?_eq_lookup, new]
  | withoutKeys removed => rw [apply, onPairs, withoutKeys_eq_filter]
  | reverse => rw [apply, onPairs, reversed_eq_reverse unique]
  | mapValues f => exact tryMapValues_eq_mapM f unique

theorem givesUnique_applyAll (edits : List (MapEdit M α)) (unique : m.UniqueKeys) :
    GivesUnique (applyAll edits m) :=
  .foldlM (fun _ edit unique => edit.givesUnique_apply unique) edits unique

/-- By induction on the edits: after each of them no key occurs twice, so that the next one does the
same to the map and to the list. -/
theorem applyAll_eq_allOnPairs (edits : List (MapEdit M α)) (unique : m.UniqueKeys) :
    applyAll edits m = allOnPairs edits m := by
  induction edits generalizing m with
  | nil => rfl
  | cons edit rest ih =>
    have same : edit.apply m = edit.onPairs m := edit.apply_eq_onPairs unique
    rw [applyAll, allOnPairs, List.foldlM_cons, List.foldlM_cons, ← same]
    exact (edit.givesUnique_apply unique).bind_congr fun _ unique => ih unique

end MapEdit
end ReactiveScript
