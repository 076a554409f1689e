import Mathlib.Data.List.Basic
import Mathlib.Data.List.Induction
import Mathlib.Data.List.Nodup
import ReactiveScript.Learner

/-!
# What a learner knows

A learner keeps two tables, and they sum up the records that were made: under each key the types are
counted exactly, whichever nodes were recorded there, and each node leads to the key under which it
was last recorded. The induction is on the records, the latest last. The type that was observed most
often does not depend on the order in which the counts are gone through, as no two types are equally
likely.
-/

namespace ReactiveScript

namespace Table

variable {α β : Type} [DecidableEq α] {m : Table α β} {key : α} {v : β}

theorem mem_iff_find? (unique : m.keys.Nodup) : (key, v) ∈ m ↔ m.find? key = some v := by
  induction m with
  | nil => simp
  | cons e rest ih =>
    obtain ⟨k, u⟩ := e
    rw [keys_cons, List.nodup_cons] at unique
    by_cases hk : k = key
    · subst hk
      have absent : (k, v) ∉ rest := fun h => unique.1 (List.mem_map.mpr ⟨_, h, rfl⟩)
      simp [find?, absent, eq_comm]
    · simp [find?, hk, Ne.symm hk, ih unique.2]

theorem nodup_alter (unique : m.keys.Nodup) (f : Option β → β) : (m.alter key f).keys.Nodup := by
  rw [keys_alter]
  split
  · exact unique
  · next absent => exact List.nodup_append_comm.mpr (List.nodup_cons.mpr ⟨absent, unique⟩)

end Table

namespace TypeTag

theorem rank_injective : Function.Injective rank := by
  intro a b h
  exact (List.idxOf_inj (mem_all a)).mp h

end TypeTag

/-- Of some types one was observed most often, and of those observed as often it is the lowest. -/
structure IsMostLikely (types : List TypeTag) (t : TypeTag) : Prop where
  mem : t ∈ types
  beats : ∀ u ∈ types, u ≠ t →
    types.count u < types.count t ∨ types.count u = types.count t ∧ t.rank < u.rank

namespace TypePrediction

variable {p : TypePrediction} {types : List TypeTag} {t u : TypeTag}
  {counts entries : Table TypeTag Nat} {a b c : TypeTag × Nat}

theorem accepted_count (counts : Table TypeTag Nat) (u t : TypeTag) :
    accepted (counts.alter u fun n => n.getD 0 + 1) t =
      accepted counts t + if t.accepts u then 1 else 0 := by
  induction counts with
  | nil => cases h : t.accepts u <;> simp [Table.alter, accepted, h]
  | cons e rest ih =>
    obtain ⟨k, n⟩ := e
    simp only [accepted] at ih
    by_cases hk : k = u
    · subst hk
      cases h : t.accepts k <;> simp [Table.alter, accepted, h, Nat.add_right_comm]
    · cases h : t.accepts k <;> simp [Table.alter, accepted, hk, h, ih, Nat.add_assoc]

theorem accepted_perm (h : entries.Perm counts) (t : TypeTag) :
    accepted entries t = accepted counts t := by
  unfold accepted
  refine h.foldr_eq' (fun (u, m) _ (v, n) _ sum => ?_) 0
  cases hu : t.accepts u <;> cases hv : t.accepts v <;> simp [hu, hv, Nat.add_left_comm]

/-- One entry is at most as likely as another one. -/
def AtMost (a b : TypeTag × Nat) : Prop := a.2 < b.2 ∨ a.2 = b.2 ∧ b.1.rank ≤ a.1.rank

theorem likelihood_ne_gt_iff : likelihood a b ≠ .gt ↔ AtMost a b := by
  rw [likelihood, AtMost, Ne, Ordering.then_eq_gt, Nat.compare_eq_gt, Nat.compare_eq_eq,
    Nat.compare_eq_gt]
  omega

theorem AtMost.refl (a : TypeTag × Nat) : AtMost a a := .inr ⟨rfl, Nat.le_refl _⟩

theorem AtMost.trans (h : AtMost a b) (h' : AtMost b c) : AtMost a c := by
  unfold AtMost at *
  omega

theorem AtMost.total (a b : TypeTag × Nat) : AtMost a b ∨ AtMost b a := by
  unfold AtMost
  omega

theorem AtMost.antisymm (h : AtMost a b) (h' : AtMost b a) : a = b := by
  unfold AtMost at *
  have counts : a.2 = b.2 := by omega
  have types : a.1 = b.1 := TypeTag.rank_injective (by omega)
  exact Prod.ext types counts

/-- One entry of a table is the most likely one. -/
def Leads (counts : Table TypeTag Nat) (b : TypeTag × Nat) : Prop :=
  b ∈ counts ∧ ∀ a ∈ counts, AtMost a b

theorem Leads.unique (h : Leads counts a) (h' : Leads counts b) : a = b :=
  (h'.2 a h.1).antisymm (h.2 b h'.1)

/-- Going on with an entry, one keeps the more likely of the best so far and the next one. -/
theorem exists_leads_of_foldl (best : TypeTag × Nat) (rest : Table TypeTag Nat) :
    ∃ b, rest.foldl (fun best e =>
        match best with
        | none => some e
        | some b => if likelihood b e = .gt then some b else some e) (some best) = some b ∧
      Leads (best :: rest) b := by
  induction rest generalizing best with
  | nil => exact ⟨best, rfl, List.mem_cons_self, by simpa using AtMost.refl best⟩
  | cons e rest ih =>
    rw [List.foldl_cons]
    by_cases ahead : likelihood best e = .gt
    · obtain ⟨b, found, mem, least⟩ := ih best
      have behind : AtMost e best :=
        (AtMost.total e best).resolve_right fun h => likelihood_ne_gt_iff.mpr h ahead
      refine ⟨b, by simpa only [if_pos ahead] using found, ?_, fun a ha => ?_⟩
      · exact (List.mem_cons.mp mem).elim (· ▸ List.mem_cons_self)
          fun h => List.mem_cons_of_mem _ (List.mem_cons_of_mem _ h)
      · rcases List.mem_cons.mp ha with rfl | ha
        · exact least _ List.mem_cons_self
        · rcases List.mem_cons.mp ha with rfl | ha
          · exact behind.trans (least best List.mem_cons_self)
          · exact least a (List.mem_cons_of_mem _ ha)
    · obtain ⟨b, found, mem, least⟩ := ih e
      have behind : AtMost best e := likelihood_ne_gt_iff.mp ahead
      refine ⟨b, by simpa only [if_neg ahead] using found, List.mem_cons_of_mem _ mem,
        fun a ha => ?_⟩
      rcases List.mem_cons.mp ha with rfl | ha
      · exact behind.trans (least e List.mem_cons_self)
      · exact least a ha

theorem exists_leader (h : counts ≠ []) : ∃ b, leader? counts = some b ∧ Leads counts b := by
  cases counts with
  | nil => exact absurd rfl h
  | cons e rest => exact exists_leads_of_foldl e rest

/-- The leader does not depend on the order of the entries. -/
theorem leader?_perm (h : entries.Perm counts) : leader? entries = leader? counts := by
  by_cases empty : counts = []
  · subst empty
    rw [h.eq_nil]
  · obtain ⟨b, found, leads⟩ := exists_leader empty
    obtain ⟨a, found', mem, least⟩ := exists_leader fun he => empty (List.perm_nil.mp (he ▸ h.symm))
    have leads' : Leads counts a := ⟨h.mem_iff.mp mem, fun e he => least e (h.mem_iff.mpr he)⟩
    rw [found, found', leads'.unique leads]

/-- The counts of a prediction are those of a list of types. -/
structure Counts (p : TypePrediction) (types : List TypeTag) : Prop where
  total : p.total = types.length
  unique : p.counts.keys.Nodup
  find? : ∀ t, p.counts.find? t = if t ∈ types then some (types.count t) else none
  accepted : ∀ t, accepted p.counts t = types.countP t.accepts

theorem counts_nil : ({} : TypePrediction).Counts [] :=
  ⟨rfl, List.nodup_nil, fun _ => rfl, fun _ => rfl⟩

theorem Counts.observe (h : p.Counts types) (t : TypeTag) :
    (p.observe t).Counts (types ++ [t]) where
  total := by simp [TypePrediction.observe, h.total]
  unique := Table.nodup_alter h.unique _
  find? u := by
    rw [TypePrediction.observe, Table.find?_alter, h.find?, h.find?]
    by_cases hu : t = u
    · subst hu
      by_cases seen : t ∈ types
      · simp [seen]
      · simp [seen, List.count_eq_zero_of_not_mem seen]
    · simp [hu, Ne.symm hu]
  accepted u := by
    rw [TypePrediction.observe, accepted_count, h.accepted, List.countP_append,
      List.countP_singleton]

theorem Counts.mem_iff (h : p.Counts types) {n : Nat} :
    (t, n) ∈ p.counts ↔ t ∈ types ∧ n = types.count t := by
  rw [Table.mem_iff_find? h.unique, h.find?]
  split <;> simp_all [eq_comm]

theorem Counts.leads_iff (h : p.Counts types) {n : Nat} :
    Leads p.counts (t, n) ↔ n = types.count t ∧ IsMostLikely types t := by
  constructor
  · rintro ⟨mem, least⟩
    obtain ⟨seen, rfl⟩ := h.mem_iff.mp mem
    refine ⟨rfl, seen, fun u hu ne => ?_⟩
    have atMost : AtMost (u, types.count u) (t, types.count t) :=
      least _ (h.mem_iff.mpr ⟨hu, rfl⟩)
    have other : u.rank ≠ t.rank := fun same => ne (TypeTag.rank_injective same)
    simp only [AtMost] at atMost
    omega
  · rintro ⟨rfl, most⟩
    refine ⟨h.mem_iff.mpr ⟨most.mem, rfl⟩, fun (u, n) hu => ?_⟩
    obtain ⟨seen, rfl⟩ := h.mem_iff.mp hu
    by_cases same : u = t
    · exact same ▸ AtMost.refl _
    · have beats := most.beats u seen same
      simp only [AtMost]
      omega

/-- A prediction is the exact tally of types, in whatever order its counts are gone through. -/
structure Tallies (p : TypePrediction) (types : List TypeTag) : Prop where
  total : p.total = types.length
  hits : ∀ t, p.hits t = if t = .any then types.length else types.count t
  likely : ∃ t, p.mostLikely? = some t ∧ IsMostLikely types t
  orderFree : ∀ entries : Table TypeTag Nat, entries.Perm p.counts →
    (leader? entries).map Prod.fst = p.mostLikely? ∧
      ∀ t, TypePrediction.accepted entries t = p.hits t

theorem Counts.tallies (h : p.Counts types) (observed : types ≠ []) : p.Tallies types where
  total := h.total
  hits t := by
    rw [TypePrediction.hits, h.accepted]
    by_cases any : t = .any
    · subst any
      simp
    · have same : (t.accepts : TypeTag → Bool) = (· == t) := by
        funext u
        rw [Bool.eq_iff_iff, TypeTag.accepts, Bool.or_eq_true, beq_iff_eq, beq_iff_eq, beq_iff_eq,
          or_iff_right any, eq_comm]
      rw [if_neg any, same, List.count]
  likely := by
    obtain ⟨t, ht⟩ := List.exists_mem_of_ne_nil types observed
    have some : p.counts ≠ [] := List.ne_nil_of_mem (h.mem_iff.mpr ⟨ht, rfl⟩)
    obtain ⟨⟨u, n⟩, found, leads⟩ := exists_leader some
    exact ⟨u, by rw [mostLikely?, found]; rfl, (h.leads_iff.mp leads).2⟩
  orderFree entries perm :=
    ⟨congrArg (Option.map Prod.fst) (leader?_perm perm), accepted_perm perm⟩

end TypePrediction

theorem IsMostLikely.unique {types : List TypeTag} {t u : TypeTag} (h : IsMostLikely types t)
    (h' : IsMostLikely types u) : t = u := by
  by_contra other
  have below := h.beats u h'.mem (Ne.symm other)
  have above := h'.beats t h.mem other
  omega

/-- The share of the types that are accepted, as a quotient of decimals. -/
def shareOf (types : List TypeTag) (t : TypeTag) : Decimal :=
  let accepted : Nat := if t = .any then types.length else types.count t
  (Decimal.ofInt accepted).div (Decimal.ofInt types.length)

theorem TypePrediction.Tallies.probability_eq {p : TypePrediction} {types : List TypeTag}
    (h : p.Tallies types) (observed : types ≠ []) (t : TypeTag) :
    p.probability t = shareOf types t := by
  have some : p.total ≠ 0 := by
    rw [h.total]
    exact List.length_eq_zero_iff.not.mpr observed
  rw [probability, if_neg some, h.hits, h.total, shareOf]

/-- A record that is made of an execution. -/
structure Observation where
  node : Nat
  key : PredictionKey
  type : TypeTag

namespace Learner

/-- A new learner after some records. -/
def ofLog (log : List Observation) : Learner :=
  log.foldl (fun l o => l.record o.node o.key o.type) {}

/-- The types that were recorded under a key, whatever the node. -/
def typesUnder (log : List Observation) (key : PredictionKey) : List TypeTag :=
  (log.filter fun o => o.key = key).map Observation.type

/-- The key under which a node was last recorded. -/
def lastKey? (log : List Observation) (node : Nat) : Option PredictionKey :=
  ((log.filter fun o => o.node = node).getLast?).map Observation.key

variable {log : List Observation} {o : Observation} {key : PredictionKey} {node : Nat}

theorem ofLog_append (log : List Observation) (o : Observation) :
    ofLog (log ++ [o]) = (ofLog log).record o.node o.key o.type := by
  rw [ofLog, List.foldl_append]
  rfl

theorem typesUnder_append (log : List Observation) (o : Observation) (key : PredictionKey) :
    typesUnder (log ++ [o]) key =
      if o.key = key then typesUnder log key ++ [o.type] else typesUnder log key := by
  by_cases h : o.key = key <;> simp [typesUnder, h]

theorem lastKey?_append (log : List Observation) (o : Observation) (node : Nat) :
    lastKey? (log ++ [o]) node = if o.node = node then some o.key else lastKey? log node := by
  by_cases h : o.node = node <;> simp [lastKey?, h]

/-- The table of counts holds what was recorded under each key, the other one the last keys. -/
structure Knows (l : Learner) (log : List Observation) : Prop where
  unseen : ∀ key, typesUnder log key = [] → l.predict? key = none
  seen : ∀ key, typesUnder log key ≠ [] →
    ∃ p, l.predict? key = some p ∧ p.Counts (typesUnder log key)
  keyOfNode : ∀ node, l.keyOfNode.find? node = lastKey? log node

theorem Knows.record {l : Learner} (h : l.Knows log) (o : Observation) :
    (l.record o.node o.key o.type).Knows (log ++ [o]) := by
  have predict (key : PredictionKey) : (l.record o.node o.key o.type).predict? key =
      if o.key = key then some (((l.predict? o.key).getD {}).observe o.type)
      else l.predict? key := Table.find?_alter ..
  have before : ((l.predict? o.key).getD {}).Counts (typesUnder log o.key) := by
    by_cases none : typesUnder log o.key = []
    · rw [h.unseen o.key none, none]
      exact TypePrediction.counts_nil
    · obtain ⟨p, found, counts⟩ := h.seen o.key none
      rw [found]
      exact counts
  refine ⟨fun key empty => ?_, fun key some => ?_, fun node => ?_⟩
  · rw [typesUnder_append] at empty
    by_cases same : o.key = key
    · simp [same] at empty
    · rw [if_neg same] at empty
      rw [predict, if_neg same, h.unseen key empty]
  · rw [typesUnder_append] at some ⊢
    by_cases same : o.key = key
    · subst same
      rw [predict, if_pos rfl, if_pos rfl]
      exact ⟨_, rfl, before.observe o.type⟩
    · rw [if_neg same] at some ⊢
      rw [predict, if_neg same]
      exact h.seen key some
  · rw [lastKey?_append, ← h.keyOfNode]
    exact Table.find?_alter ..

theorem knows_ofLog (log : List Observation) : (ofLog log).Knows log := by
  induction log using List.reverseRecOn with
  | nil => exact ⟨fun _ _ => rfl, fun _ h => absurd rfl h, fun _ => rfl⟩
  | append_singleton log o ih =>
    rw [ofLog_append]
    exact ih.record o

/-- A node that was recorded has history under its last key. -/
theorem typesUnder_ne_nil_of_lastKey? (h : lastKey? log node = some key) :
    typesUnder log key ≠ [] := by
  obtain ⟨o, last, rfl⟩ := Option.map_eq_some_iff.mp h
  have mem : o ∈ log := (List.mem_filter.mp (List.mem_of_getLast? last)).1
  exact List.ne_nil_of_mem (List.mem_map_of_mem (List.mem_filter.mpr ⟨mem, by simp⟩))

/-- A prediction is the tally of a key that was recorded; no other key has one. -/
theorem predict?_cases (log : List Observation) (key : PredictionKey) :
    typesUnder log key = [] ∧ (ofLog log).predict? key = none ∨
      typesUnder log key ≠ [] ∧
        ∃ p, (ofLog log).predict? key = some p ∧ p.Tallies (typesUnder log key) := by
  have knows := knows_ofLog log
  by_cases empty : typesUnder log key = []
  · exact .inl ⟨empty, knows.unseen key empty⟩
  · obtain ⟨p, found, counts⟩ := knows.seen key empty
    exact .inr ⟨empty, p, found, counts.tallies empty⟩

theorem predictNode?_eq (log : List Observation) (node : Nat) :
    (ofLog log).predictNode? node = (lastKey? log node).bind (ofLog log).predict? := by
  rw [predictNode?, (knows_ofLog log).keyOfNode]

theorem check?_eq_some_iff {expected : TypeTag} {threshold : Decimal} {w : TypeWarning} :
    (ofLog log).check? node expected threshold = some w ↔
      ∃ key, lastKey? log node = some key ∧
        (shareOf (typesUnder log key) expected).compare? threshold = some .lt ∧
        w.expected = expected ∧ w.probability = shareOf (typesUnder log key) expected ∧
        ∃ t, w.likely = some t ∧ IsMostLikely (typesUnder log key) t := by
  rw [check?, predictNode?_eq]
  cases last : lastKey? log node with
  | none => simp
  | some key =>
    obtain ⟨p, found, tallies⟩ :=
      ((predict?_cases log key).resolve_left fun h => typesUnder_ne_nil_of_lastKey? last h.1).2
    obtain ⟨t, likely, most⟩ := tallies.likely
    have share := tallies.probability_eq (typesUnder_ne_nil_of_lastKey? last) expected
    simp only [Option.bind_some, found, share, likely]
    constructor
    · intro warned
      split at warned
      · next below =>
        cases warned
        exact ⟨key, rfl, below, rfl, rfl, t, rfl, most⟩
      · cases warned
    · rintro ⟨_, ⟨rfl⟩, below, expects, probable, u, likely', most'⟩
      rw [if_pos below, most.unique most', ← probable, ← likely', ← expects]

end Learner

open Learner in
/-- A learner is an exact tally of the records made. Under each key that was recorded the total and
the observations that each type accepts are those of the types recorded there, by whichever node,
and the type observed most often is told, the lowest one of those tied, whatever the order in which
the counts are gone through. A node is predicted by the key that it was last recorded under. There
is a warning exactly if the node was recorded and the share of the accepted observations, as a
quotient of decimals, is below the threshold. -/
theorem records_tallied_exactly (log : List Observation) :
    (∀ key, typesUnder log key = [] ∧ (ofLog log).predict? key = none ∨
      typesUnder log key ≠ [] ∧
        ∃ p, (ofLog log).predict? key = some p ∧ p.Tallies (typesUnder log key)) ∧
    (∀ node, (ofLog log).predictNode? node = (lastKey? log node).bind (ofLog log).predict?) ∧
    ∀ node expected threshold w, (ofLog log).check? node expected threshold = some w ↔
      ∃ key, lastKey? log node = some key ∧
        (shareOf (typesUnder log key) expected).compare? threshold = some .lt ∧
        w.expected = expected ∧ w.probability = shareOf (typesUnder log key) expected ∧
        ∃ t, w.likely = some t ∧ IsMostLikely (typesUnder log key) t :=
  ⟨predict?_cases log, predictNode?_eq log, fun _ _ _ _ => check?_eq_some_iff⟩

/-- Two nodes under one key, which is then also that of a third one: of two types that were observed
as often, the lower one is likely for each of them. -/
example :
    let key (operation : String) : PredictionKey := ⟨operation, Segment.unknown, ["INTEGER"]⟩
    let log : List Observation := [⟨1, key "plus", .integer⟩, ⟨3, key "minus", .decimal⟩,
      ⟨2, key "plus", .string⟩, ⟨3, key "plus", .integer⟩, ⟨2, key "plus", .string⟩]
    ((Learner.ofLog log).predictNode? 3).map (fun p => (p.total, p.hits .any, p.mostLikely?)) =
      some (4, 4, some .string) := by
  decide

end ReactiveScript
