import ReactiveScript.Decimal.Text
import ReactiveScript.Table
import ReactiveScript.Value.Basic

/-!
# Prediction of types

Each execution of a node is recorded with the type of its result, under the operation, the place in
the source and the cases of the inputs. The types are counted for each such key. From the counts the
share of a type among the earlier results follows, and the type that was seen most often; ties go to
the type of lower rank.
-/

namespace ReactiveScript

/-- Under what observations are counted. -/
structure PredictionKey where
  operation : String
  source : Segment
  inputs : List String
deriving DecidableEq, Repr

def PredictionKey.ofInputs (operation : String) (source : Segment) (inputs : List Value) :
    PredictionKey :=
  ⟨operation, source, inputs.map Value.typeName⟩

/-- How often the types were observed under one key, and how many observations there are. -/
structure TypePrediction where
  counts : Table TypeTag Nat := []
  total : Nat := 0
deriving DecidableEq, Repr

namespace TypePrediction

/-- Counts one more observation. -/
def observe (p : TypePrediction) (t : TypeTag) : TypePrediction where
  counts := p.counts.alter t fun n => n.getD 0 + 1
  total := p.total + 1

/-- How many of the observations that are counted a type accepts. -/
def accepted (counts : Table TypeTag Nat) (t : TypeTag) : Nat :=
  counts.foldr (fun (u, n) sum => if t.accepts u then n + sum else sum) 0

/-- How many observations a type accepts. -/
def hits (p : TypePrediction) (t : TypeTag) : Nat := accepted p.counts t

/-- The share of the observations that a type accepts. -/
def probability (p : TypePrediction) (t : TypeTag) : Decimal :=
  if p.total = 0 then Decimal.zero
  else (Decimal.ofInt (p.hits t)).div (Decimal.ofInt p.total)

/-- The order of likelihood: by the count, and of types with the same count the lower one is the
greater. -/
def likelihood (a b : TypeTag × Nat) : Ordering :=
  (compare a.2 b.2).then (compare b.1.rank a.1.rank)

/-- The greatest of the entries, of those that are equally great the last one. -/
def leader? (counts : Table TypeTag Nat) : Option (TypeTag × Nat) :=
  counts.foldl (fun best e =>
    match best with
    | none => some e
    | some b => if likelihood b e = .gt then some b else some e) none

/-- The type observed most often, of those tied the one of the lowest rank. -/
def mostLikely? (p : TypePrediction) : Option TypeTag := (leader? p.counts).map Prod.fst

end TypePrediction

/-- A declared type that the assigned node has rarely given. -/
structure TypeWarning where
  expected : TypeTag
  probability : Decimal
  likely : Option TypeTag
deriving DecidableEq, Repr

def TypeWarning.text (w : TypeWarning) : String :=
  "expected " ++ w.expected.name ++ " with probability " ++ w.probability.fixed 2 ++
    (match w.likely with
      | some t => ", most likely " ++ t.name
      | none => "")

/-- What was observed under each key, and the key that each node was last recorded under. The
observations themselves, the latest first, are the history that the tables sum up. -/
structure Learner where
  observations : List (PredictionKey × TypeTag) := []
  table : Table PredictionKey TypePrediction := []
  keyOfNode : Table Nat PredictionKey := []
deriving Repr, Inhabited

namespace Learner

def record (l : Learner) (node : Nat) (key : PredictionKey) (t : TypeTag) : Learner where
  observations := (key, t) :: l.observations
  table := l.table.alter key fun p => (p.getD {}).observe t
  keyOfNode := l.keyOfNode.alter node fun _ => key

/-- What was observed under a key; nothing if there is no observation. -/
def predict? (l : Learner) (key : PredictionKey) : Option TypePrediction := l.table.find? key

/-- What was observed under the key of a node's last execution. -/
def predictNode? (l : Learner) (node : Nat) : Option TypePrediction :=
  (l.keyOfNode.find? node).bind l.predict?

/-- Warns if the share of the expected type is below a threshold. -/
def check? (l : Learner) (node : Nat) (expected : TypeTag) (threshold : Decimal) :
    Option TypeWarning :=
  match l.predictNode? node with
  | none => none
  | some p =>
    if (p.probability expected).compare? threshold = some .lt then
      some ⟨expected, p.probability expected, p.mostLikely?⟩
    else none

/-- The number of different keys. -/
def keyCount (l : Learner) : Nat := l.table.length

end Learner
end ReactiveScript
