import ReactiveScript.Value.Basic

/-!
# Bounded queues

A queue holds at most `capacity` items in the order in which they were written. A write to a full
queue drops the oldest item. Subscribers take items from the front while the queue is not paused;
reading is possible at any time.
-/

namespace ReactiveScript

structure Queue where
  items : List Value
  capacity : Nat
  paused : Bool
deriving Repr, Inhabited

namespace Queue

/-- The capacity of a queue that is made without one. -/
def defaultCapacity : Nat := 100

/-- An empty queue; it has room for one item at least. -/
def ofCapacity (capacity : Nat) : Queue := ⟨[], max capacity 1, false⟩

/-- Appends an item, dropping the oldest one of a full queue. -/
def write (q : Queue) (v : Value) : Queue :=
  if q.capacity ≤ q.items.length then { q with items := q.items.drop 1 ++ [v] }
  else { q with items := q.items ++ [v] }

/-- The oldest item, void if there is none; a mutating read removes it. -/
def read (q : Queue) (mutating : Bool) : Value × Queue :=
  match q.items with
  | [] => (.void, q)
  | v :: rest => (v, if mutating then { q with items := rest } else q)

/-- The item that a subscriber gets: the oldest one, and none while the queue is paused. -/
def take? (q : Queue) : Option (Value × Queue) :=
  if q.paused then none
  else match q.items with
    | [] => none
    | v :: rest => some (v, { q with items := rest })

/-- All items, removed from the queue. -/
def drain (q : Queue) : List Value × Queue := (q.items, { q with items := [] })

def pause (q : Queue) : Queue := { q with paused := true }

def unpause (q : Queue) : Queue := { q with paused := false }

def clear (q : Queue) : Queue := { q with items := [] }

@[simp] theorem capacity_write (q : Queue) (v : Value) : (q.write v).capacity = q.capacity := by
  unfold write; split <;> rfl

/-- A write keeps the number of items within the capacity. -/
theorem length_write_le (q : Queue) (v : Value) (hpos : 0 < q.capacity)
    (h : q.items.length ≤ q.capacity) : (q.write v).items.length ≤ q.capacity := by
  unfold write
  split
  · simp
    omega
  · simp
    omega

end Queue
end ReactiveScript
