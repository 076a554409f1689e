import ReactiveScript.Text.Numeral

/-!
# Integer ranges

A range holds both of its bounds and everything between them. It is descending if it starts at the
greater bound. Its elements are enumerated from the start.
-/

namespace ReactiveScript

structure IntRange where
  start : Int64
  stop : Int64
deriving DecidableEq, Repr, Inhabited

namespace IntRange

/-- The number of elements. -/
def count (r : IntRange) : Nat := (r.start.toInt - r.stop.toInt).natAbs + 1

/-- The number of elements, at most the greatest 64-bit number. -/
def length (r : IntRange) : Nat := min r.count (UInt64.size - 1)

def isAscending (r : IntRange) : Bool := decide (r.start.toInt ≤ r.stop.toInt)

/-- The lower and the upper bound. -/
def bounds (r : IntRange) : Int64 × Int64 :=
  if r.isAscending then (r.start, r.stop) else (r.stop, r.start)

def contains (r : IntRange) (n : Int64) : Bool :=
  decide (r.bounds.1.toInt ≤ n.toInt) && decide (n.toInt ≤ r.bounds.2.toInt)

def reversed (r : IntRange) : IntRange := ⟨r.stop, r.start⟩

/-- The integer that lies `index` steps from the start. -/
def step (r : IntRange) (index : Nat) : Int :=
  if r.isAscending then r.start.toInt + index else r.start.toInt - index

/-- The first `limit` elements, fewer if the range has fewer. -/
def take (r : IntRange) (limit : Nat) : List Int64 :=
  (List.range (min limit r.count)).map fun index => Int64.ofInt (r.step index)

/-- All elements from the start on. -/
def toList (r : IntRange) : List Int64 := r.take r.count

/-- The element at an index of 64 bits. An index that is no signed 64-bit number selects nothing,
even in a range that has so many elements. -/
def get? (r : IntRange) (index : Nat) : Option Int64 :=
  if index < r.length && decide (index ≤ Int64.maxValue.toInt) then
    some (Int64.ofInt (r.step index))
  else none

/-- Both bounds with two dots between them. -/
def text (r : IntRange) : String := Text.ofInt r.start.toInt ++ ".." ++ Text.ofInt r.stop.toInt

@[simp] theorem reversed_reversed (r : IntRange) : r.reversed.reversed = r := rfl

@[simp] theorem count_reversed (r : IntRange) : r.reversed.count = r.count := by
  simp only [count, reversed]
  omega

end IntRange
end ReactiveScript
