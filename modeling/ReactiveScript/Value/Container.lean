import ReactiveScript.Value.Arithmetic

/-!
# Access to containers

Lookup, extension and membership. The receiver is forced to a concrete value, a key or an item that
is looked for all the way down; items that are stored are stored as they are. An integer key selects
by position, from zero; any other key of a map is taken by its text. What is not there is void.
-/

namespace ReactiveScript.Value

/-- A key that is a natural number. -/
def position? (key : Value) : Option Nat :=
  key.asInt?.bind fun n => if 0 ≤ n.toInt then some n.toInt.toNat else none

/-- The element of a container under a key. -/
def get (v key : Value) : Except EvalError Value :=
  match v.untagged with
  | error _ => .ok v
  | map entries =>
    match key.asInt? with
    | some _ =>
      .ok (((position? key).bind fun i => entries[i]?).elim void fun (k, w) => pair k w)
    | none => .ok ((OrderedMap.find? key.display entries).getD void)
  | list items => .ok (((position? key).bind fun i => items[i]?).getD void)
  | str s =>
    .ok (((position? key).bind fun i => s.toList[i]?).elim void fun c => str (String.ofList [c]))
  | range r => .ok (((position? key).bind r.get?).elim void int)
  | other => .error (EvalError.typeMismatch "get" other.typeName key.typeName)

/-- A size as an integer of 64 bits. -/
def ofSize (n : Nat) : Value := int (Int64.ofInt (min n Int64.maxValue.toInt))

/-- The number of elements, entries or characters; one for a value that is no container. -/
def size (v : Value) : Value :=
  match v.untagged with
  | map entries => ofSize entries.length
  | list items => ofSize items.length
  | str s => ofSize s.toList.length
  | range r => ofSize r.length
  | void => ofSize 0
  | error _ => v
  | _ => ofSize 1

/-- Adds an item to a map: a pair is an entry, any other item goes under a free key. -/
def addEntry (add : String → Value → OrderedMap Value → OrderedMap Value)
    (entries : OrderedMap Value) (item : Value) : Value :=
  match item.untagged with
  | map [(key, w)] => map (add key w entries)
  | other => map (add (OrderedMap.freshKey entries) other entries)

/-- Adds an item at the end. A pair whose key is in the map moves that key to the end. -/
def append (v item : Value) : Value :=
  match v.untagged with
  | error e => error e
  | map entries => addEntry OrderedMap.insertLast entries item
  | list items => list (items ++ [item])
  | str s => str (s ++ item.display)
  | void => list [item]
  | other => list [other, item]

/-- Adds an item at the front. -/
def prepend (v item : Value) : Value :=
  match v.untagged with
  | error e => error e
  | map entries => addEntry OrderedMap.insertFirst entries item
  | list items => list (item :: items)
  | str s => str (item.display ++ s)
  | void => list [item]
  | other => list [item, other]

/-- Binds a key of a map, or replaces the item of a list at a position up to its end. -/
def set (v key value : Value) : Except EvalError Value :=
  match v.untagged with
  | error e => .ok (error e)
  | map entries => .ok (map (OrderedMap.insert key.display value entries))
  | void => .ok (pair key.display value)
  | list items =>
    match position? key with
    | some i =>
      if i < items.length then .ok (list (items.set i value))
      else if i = items.length then .ok (list (items ++ [value]))
      else .error (EvalError.typeMismatch "set" "LIST" key.typeName)
    | none => .error (EvalError.typeMismatch "set" "LIST" key.typeName)
  | other => .error (EvalError.invalidMapOperation "set" other.typeName)

/-- Whether a map has a key or a list a position. -/
def containsKey (v key : Value) : Bool :=
  match v.untagged with
  | map entries => OrderedMap.containsKey entries key.display
  | list items => (position? key).any fun i => i < items.length
  | _ => false

/-- Whether an item is among the values of a map, the items of a list, the parts of a text or the
elements of a range; any other value holds just itself. -/
def has (v item : Value) : Bool :=
  match v.untagged with
  | map entries => (OrderedMap.values entries).any fun w => w.same item
  | list items => items.any fun w => w.same item
  | str s => Text.occursIn item.display.toList s.toList
  | range r => item.asInt?.any r.contains
  | other => other.same item

end ReactiveScript.Value
