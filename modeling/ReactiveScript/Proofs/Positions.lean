import ReactiveScript.Proofs.Executions
import ReactiveScript.Proofs.MapAlgebra
import ReactiveScript.Proofs.Ranges

/-!
# Positions in containers

A container is made of pieces in an order: a list of its items, a map of its entries, and a text of
its characters. Look-up by the positions below the size gives all pieces, each once and in this
order, and look-up by any other integer gives nothing. What the pieces are joined to is the
container again, except that joining maps forces what is in them.
-/

namespace ReactiveScript

open Eval

namespace Value

/-- A text of one character. -/
def character (c : Char) : Value := str (String.ofList [c])

/-- The entries of a map, each as a map of its own. -/
def pairs (entries : OrderedMap Value) : List Value := entries.map fun e => pair e.1 e.2

theorem pairs_cons (key : String) (v : Value) (rest : OrderedMap Value) :
    pairs ((key, v) :: rest) = pair key v :: pairs rest := rfl

/-- A value has a size and finds what is at its positions as a list of pieces does. -/
structure HasPieces (c : Value) (pieces : List Value) : Prop where
  plain : c.isNode = false
  size : ∀ v : Value, v.untagged = c → v.size = ofSize pieces.length
  get : ∀ v k : Value, v.untagged = c → k.asInt?.isSome →
    v.get k = .ok ((k.position?.bind fun p => pieces[p]?).getD void)

variable {v k c : Value} {pieces items : List Value} {entries : OrderedMap Value} {i : Int64}

/-- What is made of the element at a position is the element of what is made of all. -/
theorem elim_getElem? {α : Type} (position : Option Nat) (l : List α) (f : α → Value) :
    (position.bind fun p => l[p]?).elim void f =
      (position.bind fun p => (l.map f)[p]?).getD void := by
  cases position with
  | none => rfl
  | some p =>
    rw [Option.bind_some, Option.bind_some, List.getElem?_map]
    cases l[p]? <;> rfl

theorem hasPieces_list (items : List Value) : (list items).HasPieces items :=
  ⟨rfl, fun _ hv => size_list hv, fun _ _ hv _ => get_list hv⟩

theorem hasPieces_map (entries : OrderedMap Value) : (map entries).HasPieces (pairs entries) := by
  refine ⟨rfl, fun v hv => ?_, fun v k hv hk => ?_⟩
  · rw [size_map hv, pairs, List.length_map]
  · obtain ⟨i, hi⟩ := Option.isSome_iff_exists.mp hk
    rw [get, hv]
    simp only [hi]
    exact congrArg Except.ok (elim_getElem? _ _ _)

theorem hasPieces_str (s : String) : (str s).HasPieces (s.toList.map character) := by
  refine ⟨rfl, fun v hv => ?_, fun v k hv hk => ?_⟩
  · rw [size, hv, List.length_map]
  · rw [get, hv]
    exact congrArg Except.ok (elim_getElem? _ _ _)

end Value

open Value

namespace Method

variable {v k c x : Value} {pieces : List Value} {i : Int64}

/-- Looks up all positions below the size of a container, from zero on. -/
def enumerate (v : Value) : Eval (List Value) := do
  let size ← size.call v .void .void
  (List.range (size.position?.getD 0)).mapM fun p => get.call v (.int (Int64.ofNat p)) .void

/-- Adds values to a first one, one after the other. -/
def addAll (start : Value) (values : List Value) : Eval Value :=
  values.foldlM (fun sum v => plus.call sum v .void) start

/-- Joins the pieces of a container to an empty one. -/
def rejoin (empty v : Value) : Eval Value := do addAll empty (← enumerate v)

theorem mapM_eq_pure {α β : Type} {f : α → Eval β} {g : α → β} {l : List α}
    (h : ∀ a ∈ l, f a = pure (g a)) : l.mapM f = pure (l.map g) := by
  induction l with
  | nil => rfl
  | cons a rest ih =>
    obtain ⟨first, later⟩ := List.forall_mem_cons.mp h
    rw [List.mapM_cons, first, ih later]
    rfl

end Method

/-- A container is enumerated by pieces: its size counts them, look-up by an integer gives the piece
at this position if there is one and void otherwise, and so look-up by all positions below the size
gives all of them in their order. -/
structure Value.EnumeratedBy (v : Value) (pieces : List Value) : Prop where
  size : ∀ x y, ∃ n : Int64, Method.size.call v x y = pure (.int n) ∧ n.toInt = pieces.length
  inside : ∀ (k : Value) (i : Int64) (x : Value), k.asInt? = some i → 0 ≤ i.toInt →
    ∀ h : i.toInt.toNat < pieces.length, Method.get.Answers v k x (.ok pieces[i.toInt.toNat])
  outside : ∀ (k : Value) (i : Int64) (x : Value), k.asInt? = some i →
    ¬ (0 ≤ i.toInt ∧ i.toInt < pieces.length) → Method.get.Answers v k x (.ok .void)
  all : Method.enumerate v = pure pieces

namespace Value.HasPieces

variable {v c : Value} {pieces : List Value}

theorem size_call (hc : c.HasPieces pieces) (hv : v.untagged = c) (few : pieces.length < 2 ^ 63)
    (x y : Value) :
    ∃ n : Int64, Method.size.call v x y = pure (.int n) ∧ n.toInt = pieces.length := by
  obtain ⟨n, sized, capped⟩ := exists_ofSize pieces.length
  refine ⟨n, ?_, by omega⟩
  rw [Method.size_call (isNode_of_untagged hv hc.plain), hc.size _ (v.untagged_joined.trans hv),
    sized]

/-- A position below the size is a 64-bit integer. -/
theorem get_call (hc : c.HasPieces pieces) (hv : v.untagged = c) (few : pieces.length < 2 ^ 63)
    {p : Nat} (h : p < pieces.length) (x : Value) :
    Method.get.call v (.int (Int64.ofNat p)) x = pure pieces[p] := by
  have toInt : (Int64.ofNat p).toInt = p := Int64.toInt_ofNat_of_lt (by omega)
  show onOperands Value.get v (.int (Int64.ofNat p)) = _
  rw [Method.onOperands_eq_ofExcept (isNode_of_untagged hv hc.plain)
    (u := .int (Int64.ofNat p)) rfl, hc.get _ _ (v.untagged_joined.trans hv) rfl,
    position?_eq (i := Int64.ofNat p) rfl, toInt, if_pos (Int.natCast_nonneg p),
    Int.toNat_natCast, Option.bind_some, List.getElem?_eq_getElem h, Option.getD_some]
  rfl

theorem enumerate_eq (hc : c.HasPieces pieces) (hv : v.untagged = c)
    (few : pieces.length < 2 ^ 63) : Method.enumerate v = pure pieces := by
  obtain ⟨n, sized, counts⟩ := hc.size_call hv few .void .void
  have upTo : (Value.int n).position?.getD 0 = pieces.length := by
    rw [position?_eq (i := n) rfl, if_pos (by omega), Option.getD_some]
    omega
  have found : ∀ p ∈ List.range pieces.length,
      Method.get.call v (.int (Int64.ofNat p)) .void = pure (pieces[p]?.getD .void) := by
    intro p hp
    have h : p < pieces.length := List.mem_range.mp hp
    rw [hc.get_call hv few h, List.getElem?_eq_getElem h, Option.getD_some]
  rw [Method.enumerate, sized, pure_bind, upTo, Method.mapM_eq_pure found]
  refine congrArg pure (List.ext_getElem (by simp) fun p h h' => ?_)
  simp [h']

theorem enumeratedBy (hc : c.HasPieces pieces) (hv : v.untagged = c)
    (few : pieces.length < 2 ^ 63) : v.EnumeratedBy pieces := by
  have found {k : Value} {i : Int64} (x : Value) (hk : k.asInt? = some i) :
      Method.get.Answers v k x
        (.ok ((if 0 ≤ i.toInt then pieces[i.toInt.toNat]? else none).getD .void)) := by
    refine .of_case hv hc.plain (fun _ => rfl) fun u hu => ?_
    rw [hc.get u k hu (hk ▸ rfl), position?_eq hk]
    split <;> rfl
  refine ⟨hc.size_call hv few, fun k i x hk nonneg h => ?_, fun k i x hk beyond => ?_,
    hc.enumerate_eq hv few⟩
  · refine (found x hk).of_eq ?_
    rw [if_pos nonneg, List.getElem?_eq_getElem h, Option.getD_some]
  · refine (found x hk).of_eq ?_
    split
    · rw [List.getElem?_eq_none (by omega), Option.getD_none]
    · rfl

end Value.HasPieces

namespace Eval

variable {perform : Task → Run Value} {w w' : World}

/-- Forcing the values of a map leaves its keys. -/
theorem forceEntries_keeps_keys (parallel single : Bool) (entries : OrderedMap Value)
    (depth : Nat) : (forceEntries parallel single entries depth).Ensures perform
      fun us => OrderedMap.keys us = entries.keys := by
  induction entries with
  | nil => exact .pure rfl
  | cons e rest ih =>
    refine .bind (.trivially _) fun u _ => .bind (.holding u.held ih) fun us kept => .pure ?_
    exact congrArg (e.1 :: ·) kept

/-- A map with some keys. -/
def HasKeys (keys : List String) (v : Value) : Prop :=
  ∃ entries : OrderedMap Value, v = .map entries ∧ entries.keys = keys

theorem force_keeps_keys (parallel : Bool) (entries : OrderedMap Value) (depth : Nat) :
    (force parallel (.map entries) depth).Ensures perform (HasKeys entries.keys) := by
  unfold force
  split
  · exact .pure ⟨entries, rfl, rfl⟩
  · exact .bind (forceEntries_keeps_keys _ _ entries _) fun us kept => .pure ⟨us, rfl, kept⟩

/-- What follows the forcing of a map to some depth is further forcing of maps with the same keys,
until no node is left. -/
theorem settleRest_keeps_keys {keys : List String} {x : Eval Value} (parallel : Bool)
    (hx : x.Ensures perform (HasKeys keys))
    (again : ∀ entries : OrderedMap Value, entries.keys = keys →
      (Eval.perform (.settle (.map entries) parallel)).Ensures perform
        fun u => HasKeys keys u ∧ u.NodeFree) :
    (do
      let u ← x
      if u.containsNode then Eval.perform (.settle u parallel) else pure u).Ensures perform
      fun u => HasKeys keys u ∧ u.NodeFree := by
  refine .bind hx fun u kept => ?_
  split
  · obtain ⟨entries, rfl, same⟩ := kept
    exact again entries same
  · next free => exact .pure ⟨kept, Bool.eq_false_iff.mpr free⟩

theorem settle_keeps_keys (fuel : Nat) (parallel : Bool) {keys : List String}
    (entries : OrderedMap Value) (same : entries.keys = keys) :
    (Eval.perform (.settle (.map entries) parallel)).Ensures (performWith fuel)
      fun u => HasKeys keys u ∧ u.NodeFree := by
  induction fuel generalizing entries with
  | zero => exact fun _ _ _ h => nomatch h
  | succ fuel ih =>
    have settled : (settle parallel (.map entries)).Ensures (performWith fuel)
        fun u => HasKeys keys u ∧ u.NodeFree :=
      settleRest_keeps_keys parallel (.holding _ (same ▸ force_keeps_keys parallel entries _)) ih
    exact settled

/-- A map of one entry is forced all the way down to a map of one entry under the same key. -/
theorem exists_pair_of_fixDeep {held : List Held} {key : String} {v p : Value}
    (h : (holding held (fixDeep (pair key v))).Ends w (.ok p) w') :
    ∃ u : Value, p = pair key u ∧ u.NodeFree := by
  obtain ⟨fuel, ran⟩ := h
  have ensures : (fixDeep (pair key v)).Ensures (performWith fuel)
      fun u => HasKeys [key] u ∧ u.NodeFree :=
    settleRest_keeps_keys false (force_keeps_keys false [(key, v)] _) (settle_keeps_keys fuel false)
  obtain ⟨⟨entries, rfl, keys⟩, free⟩ := ensures.holding held w p w' ran
  obtain ⟨e, rfl⟩ : ∃ e, entries = [e] := List.length_eq_one_iff.mp (by
    rw [← List.length_map (f := Prod.fst)]
    exact congrArg List.length keys)
  obtain ⟨k, u⟩ := e
  cases List.singleton_inj.mp keys
  exact ⟨u, rfl, nodeFree_map.mp free u List.mem_cons_self⟩

end Eval

/-- The entries of a map are forced all the way down, one after the other, while those before them
are held: until none is left, or one fails. -/
inductive EntriesSettle : OrderedMap Value → World → OrderedMap Value →
    Except EvalError (OrderedMap Value) → World → Prop where
  | nil (done : OrderedMap Value) (w : World) : EntriesSettle done w [] (.ok done) w
  | cons {done rest : OrderedMap Value} {key : String} {v u : Value} {w w₁ w' : World}
      {r : Except EvalError (OrderedMap Value)}
      (first : (holding (Value.map done).held (fixDeep (pair key v))).Ends w (.ok (pair key u)) w₁)
      (later : EntriesSettle (done ++ [(key, u)]) w₁ rest r w') :
      EntriesSettle done w ((key, v) :: rest) r w'
  | failure {done rest : OrderedMap Value} {key : String} {v : Value} {w w' : World} {e : EvalError}
      (first : (holding (Value.map done).held (fixDeep (pair key v))).Ends w (.error e) w') :
      EntriesSettle done w ((key, v) :: rest) (.error e) w'

/-- An entry has been forced all the way down. -/
def ForcedEntry (e f : String × Value) : Prop :=
  f.1 = e.1 ∧ f.2.NodeFree ∧
    ∃ held w w', (holding held (fixDeep (pair e.1 e.2))).Ends w (.ok (pair f.1 f.2)) w'

/-- Behind what was there stand the forced entries, in their order. -/
theorem EntriesSettle.forced {done entries all : OrderedMap Value} {w w' : World}
    {r : Except EvalError (OrderedMap Value)} (h : EntriesSettle done w entries r w')
    (ended : r = .ok all) : ∃ us, all = done ++ us ∧ List.Forall₂ ForcedEntry entries us := by
  induction h with
  | nil done w =>
    cases ended
    exact ⟨[], (List.append_nil _).symm, .nil⟩
  | @cons done rest key v u w w₁ w' r first later ih =>
    obtain ⟨us, rfl, settled⟩ := ih ended
    obtain ⟨u', same, free⟩ := exists_pair_of_fixDeep first
    cases same
    exact ⟨(key, u) :: us, List.append_assoc .., .cons ⟨rfl, free, _, _, _, first⟩ settled⟩
  | failure first => cases ended

namespace Method

variable {done entries us : OrderedMap Value} {key : String} {v u x : Value} {w w' : World}

theorem addAll_cons (start v : Value) (rest : List Value) :
    addAll start (v :: rest) = plus.call start v .void >>= fun sum => addAll sum rest :=
  List.foldlM_cons

theorem plus_str (s t : String) : plus.call (.str s) (.str t) x = pure (.str (s ++ t)) := rfl

/-- Characters that are added to a text one after the other stand behind it. -/
theorem addAll_characters (s : String) (cs : List Char) :
    addAll (.str s) (cs.map character) = pure (.str (s ++ String.ofList cs)) := by
  induction cs generalizing s with
  | nil => exact congrArg (fun t => pure (Value.str t)) (by simp)
  | cons c rest ih =>
    rw [List.map_cons, addAll_cons, character, plus_str, pure_bind, ih]
    exact congrArg (fun t => pure (Value.str t)) (by
      rw [String.append_assoc, ← String.ofList_append]
      rfl)

/-- A pair under a new key is added behind all entries. -/
theorem plus_pair (fresh : key ∉ done.keys) (u : Value) :
    (Value.map done).plus (pair key u) = .ok (.map (done ++ [(key, u)])) := by
  rw [← OrderedMap.insert_of_notMem fresh]
  rfl

/-- Addition of a pair under a new key forces it and then cannot fail. -/
theorem plus_pair_ends_iff (fresh : key ∉ done.keys) {s : Except EvalError Value} :
    let forced := holding (Value.map done).held (Eval.fixDeep (pair key v))
    (plus.call (.map done) (pair key v) x).Ends w s w' ↔
      (∃ e, forced.Ends w (.error e) w' ∧ s = .error e) ∨
      ∃ u, forced.Ends w (.ok (pair key u)) w' ∧ s = .ok (.map (done ++ [(key, u)])) := by
  intro forced
  have call : plus.call (.map done) (pair key v) x =
      forced >>= fun p => ofExcept ((Value.map done).plus p) := by
    show onOperands Value.plus (.map done) (pair key v) = _
    rw [onOperands, Eval.fix, force_eq_joined false (v := .map done) rfl, pure_bind]
    rfl
  rw [call, Ends.bind_ends_iff (Protocol.holding _ (.fixDeep _)).routine
    fun p => (Protocol.ofExcept _).routine]
  refine or_congr_right ⟨?_, ?_⟩
  · rintro ⟨p, w₁, forced, added⟩
    obtain ⟨u, rfl, -⟩ := exists_pair_of_fixDeep forced
    rw [plus_pair fresh] at added
    obtain ⟨rfl, rfl⟩ := Ends.unique (Protocol.pure _).routine added (.pure _ _)
    exact ⟨u, forced, rfl⟩
  · rintro ⟨u, forced, rfl⟩
    refine ⟨pair key u, w', forced, ?_⟩
    rw [plus_pair fresh]
    exact .pure _ _

theorem plus_plain (v w x : Value) : (plus.call v w x).Plain :=
  (Protocol.onOperands Value.plus v w).routine

theorem addAll_plain (start : Value) (values : List Value) : (addAll start values).Plain := by
  induction values generalizing start with
  | nil => exact (Protocol.pure _).routine
  | cons v rest ih =>
    rw [addAll_cons]
    exact .bind (plus_plain _ _ _) fun sum => ih sum

theorem key_fresh {rest : OrderedMap Value}
    (unique : OrderedMap.UniqueKeys (done ++ (key, v) :: rest)) : key ∉ done.keys := by
  rw [OrderedMap.UniqueKeys, OrderedMap.keys, List.map_append, List.map_cons] at unique
  exact fun h => (List.disjoint_of_nodup_append unique) h List.mem_cons_self

theorem uniqueKeys_replaced {rest : OrderedMap Value}
    (unique : OrderedMap.UniqueKeys (done ++ (key, v) :: rest)) (u : Value) :
    OrderedMap.UniqueKeys (done ++ [(key, u)] ++ rest) := by
  have same : OrderedMap.keys (done ++ [(key, u)] ++ rest) =
      OrderedMap.keys (done ++ (key, v) :: rest) := by
    simp only [OrderedMap.keys, List.map_append, List.map_cons, List.append_assoc,
      List.singleton_append]
  rw [OrderedMap.UniqueKeys, same]
  exact unique

/-- The entries of a map that are added one after the other are forced one after the other, and
stand behind those that were there. -/
theorem addAll_pairs_ends_iff (unique : OrderedMap.UniqueKeys (done ++ entries))
    {s : Except EvalError Value} :
    (addAll (.map done) (pairs entries)).Ends w s w' ↔
      ∃ r, EntriesSettle done w entries r w' ∧ s = r.map Value.map := by
  induction entries generalizing done w with
  | nil =>
    have ends : (addAll (.map done) (pairs [])).Ends w (.ok (.map done)) w := .pure _ _
    rw [Ends.iff_eq (addAll_plain _ _) ends]
    constructor
    · rintro ⟨rfl, rfl⟩
      exact ⟨.ok done, .nil _ _, rfl⟩
    · rintro ⟨r, h, rfl⟩
      cases h
      exact ⟨rfl, rfl⟩
  | cons e rest ih =>
    obtain ⟨key, v⟩ := e
    have fresh : key ∉ done.keys := key_fresh unique
    have later (u : Value) : OrderedMap.UniqueKeys (done ++ [(key, u)] ++ rest) :=
      uniqueKeys_replaced unique u
    rw [pairs_cons, addAll_cons, Ends.bind_ends_iff (plus_plain _ _ _) fun _ => addAll_plain _ _]
    constructor
    · rintro (⟨e, failed, rfl⟩ | ⟨sum, w₁, added, rest⟩)
      · obtain ⟨e', first, same⟩ | ⟨u, -, given⟩ := (plus_pair_ends_iff fresh).mp failed
        · cases same
          exact ⟨.error e, .failure first, rfl⟩
        · cases given
      · obtain ⟨e, -, none⟩ | ⟨u, first, given⟩ := (plus_pair_ends_iff fresh).mp added
        · cases none
        · cases given
          obtain ⟨r, settled, rfl⟩ := (ih (later u)).mp rest
          exact ⟨r, .cons first settled, rfl⟩
    · rintro ⟨r, settled, rfl⟩
      cases settled with
      | @cons _ _ _ _ u _ w₁ _ _ first settled =>
        exact .inr ⟨_, w₁, (plus_pair_ends_iff fresh).mpr (.inr ⟨u, first, rfl⟩),
          (ih (later u)).mpr ⟨r, settled, rfl⟩⟩
      | @failure _ _ _ _ _ _ e first =>
        exact .inl ⟨e, (plus_pair_ends_iff fresh).mpr (.inl ⟨e, first, rfl⟩), rfl⟩

/-- Entries without nodes are added as they are. -/
theorem addAll_pairs (all : (Value.map (done ++ entries)).IsMapOf (done ++ entries)) :
    addAll (.map done) (pairs entries) = pure (.map (done ++ entries)) := by
  induction entries generalizing done with
  | nil =>
    rw [List.append_nil]
    rfl
  | cons e rest ih =>
    obtain ⟨key, v⟩ := e
    have values : ∀ u ∈ OrderedMap.values (done ++ (key, v) :: rest), u.NodeFree ∧ u.TagsJoined :=
      all.values
    rw [OrderedMap.values, List.map_append, List.forall_mem_append] at values
    have front : (Value.map done).IsMapOf done :=
      isMapOf_map (List.Nodup.of_append_left (by
        have unique := all.unique
        rwa [OrderedMap.UniqueKeys, OrderedMap.keys, List.map_append] at unique)) values.1
    have first : (pair key v).IsMapOf [(key, v)] :=
      isMapOf_map (List.nodup_singleton _) fun u hu =>
        values.2 u (List.mem_cons.mpr (.inl (List.mem_singleton.mp hu)))
    have merged : OrderedMap.merged done [(key, v)] = done ++ [(key, v)] :=
      OrderedMap.insert_of_notMem (key_fresh all.unique) v
    rw [pairs_cons, addAll_cons, plus_makes_merged front first, merged, pure_bind, ih,
      List.append_assoc]
    · rfl
    · rw [List.append_assoc]
      exact all

theorem rejoin_eq {pieces : List Value} (h : v.EnumeratedBy pieces) (empty : Value) :
    rejoin empty v = addAll empty pieces := by
  rw [rejoin, h.all, pure_bind]

end Method

/-- A container is enumerated by its pieces: a list by its items, a text by its characters, and a
map by its entries. A text is its characters joined. Joining the entries of a map forces each of
them all the way down, in their order, and ends as this does: with the first error, or with the map
of the forced entries under the same keys in the same order, which is the map itself if there is no
node in it. -/
theorem positions_enumerate_containers (v : Value) :
    (∀ items : List Value, v.untagged = .list items → items.length < 2 ^ 63 →
      v.EnumeratedBy items) ∧
    (∀ s : String, v.untagged = .str s → s.toList.length < 2 ^ 63 →
      v.EnumeratedBy (s.toList.map character) ∧ Method.rejoin (.str "") v = pure (.str s)) ∧
    ∀ entries : OrderedMap Value, v.untagged = .map entries → entries.UniqueKeys →
      entries.length < 2 ^ 63 →
      v.EnumeratedBy (pairs entries) ∧
      (∀ w s w', (Method.rejoin (.map []) v).Ends w s w' ↔
        ∃ r, EntriesSettle [] w entries r w' ∧ s = r.map Value.map) ∧
      (∀ w us w', EntriesSettle [] w entries (.ok us) w' → List.Forall₂ ForcedEntry entries us) ∧
      (v.IsMapOf entries → Method.rejoin (.map []) v = pure (.map entries)) := by
  refine ⟨fun items hv few => (hasPieces_list items).enumeratedBy hv few, fun s hv few => ?_,
    fun entries hv unique few => ?_⟩
  · have enumerated : v.EnumeratedBy (s.toList.map character) :=
      (hasPieces_str s).enumeratedBy hv (by rwa [List.length_map])
    refine ⟨enumerated, ?_⟩
    rw [Method.rejoin_eq enumerated, Method.addAll_characters, String.empty_append,
      String.ofList_toList]
  · have enumerated : v.EnumeratedBy (pairs entries) :=
      (hasPieces_map entries).enumeratedBy hv (by rwa [pairs, List.length_map])
    refine ⟨enumerated, fun w s w' => ?_, fun w us w' settled => ?_, fun free => ?_⟩
    · have fresh : OrderedMap.UniqueKeys ([] ++ entries) := unique
      rw [Method.rejoin_eq enumerated]
      exact Method.addAll_pairs_ends_iff fresh
    · obtain ⟨us', rfl, forced⟩ := settled.forced rfl
      exact forced
    · have all : (Value.map ([] ++ entries)).IsMapOf ([] ++ entries) :=
        isMapOf_map unique free.values
      rw [Method.rejoin_eq enumerated]
      exact Method.addAll_pairs all

/-- A text in which a character takes two bytes, with a tag. -/
def accented : Value := .tagged (.str "né") { integer := some 1 }

theorem accented_text_enumerated :
    accented.untagged = .str "né" ∧ "né".toList.length < 2 ^ 63 ∧
      Method.enumerate accented = pure [.str "n", .str "é"] ∧
      Method.rejoin (.str "") accented = pure (.str "né") ∧
      Method.enumerate taggedMap = pure [pair "a" (.int 1), pair "b" (.int 2)] ∧
      Method.get.Answers taggedMap (.int 1) .void (.ok (pair "b" (.int 2))) ∧
      Method.get.Answers taggedMap (.int 2) .void (.ok .void) := by
  have few : "né".toList.length < 2 ^ 63 := by decide
  obtain ⟨enumerated, joined⟩ := (positions_enumerate_containers accented).2.1 "né" rfl few
  obtain ⟨entries, -⟩ := (positions_enumerate_containers taggedMap).2.2
    [("a", .int 1), ("b", .int 2)] rfl (by decide) (by decide)
  exact ⟨rfl, few, enumerated.all, joined, entries.all,
    entries.inside (.int 1) 1 .void rfl (by decide) (by decide),
    entries.outside (.int 2) 2 .void rfl (by decide)⟩

/-- A node that gives a number, and a map with the node in it. -/
def oneNodeWorld : World where
  nodes := #[
    { operation := "lazy", source := Segment.unknown, inputs := [], flags := {}
      body := .program [.yield (.int 1)], captured := none, trigger := .inputs }]

def deferredEntry : Value := .map [("a", .node ⟨1, "lazy"⟩)]

/-- The only entry of the map is the map itself, and joined to the empty map it is another one. -/
theorem deferred_entry_rejoined_forced :
    Method.enumerate deferredEntry = pure [deferredEntry] ∧
      (∃ w, (Method.rejoin (.map []) deferredEntry).Ends oneNodeWorld
        (.ok (.map [("a", .int 1)])) w) ∧
      deferredEntry.same (.map [("a", .int 1)]) = false := by
  have enumerated : deferredEntry.EnumeratedBy [deferredEntry] :=
    (hasPieces_map [("a", .node ⟨1, "lazy"⟩)]).enumeratedBy rfl (by decide)
  have forced : ∃ w, (holding [] (fixDeep deferredEntry)).Ends oneNodeWorld
    (.ok (pair "a" (.int 1))) w := ⟨_, 1, rfl⟩
  obtain ⟨w, forced⟩ := forced
  have unique : OrderedMap.UniqueKeys ([] ++ [("a", Value.node ⟨1, "lazy"⟩)]) :=
    List.nodup_singleton _
  refine ⟨enumerated.all, ⟨w, ?_⟩, by decide⟩
  rw [Method.rejoin_eq enumerated]
  exact (Method.addAll_pairs_ends_iff unique).mpr ⟨_, .cons forced (.nil _ _), rfl⟩

end ReactiveScript
