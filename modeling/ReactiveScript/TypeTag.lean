import ReactiveScript.Text.Blank

/-!
# Type tags

The names by which scripts speak of the case of a value: in declarations, as the target of a cast
and in predictions. `any` accepts every value and is the type of none.
-/

namespace ReactiveScript

inductive TypeTag
  | boolean
  | string
  | list
  | map
  | decimal
  | integer
  | void
  | range
  | error
  | any
deriving DecidableEq, Repr, Inhabited

namespace TypeTag

/-- Every tag, in the order in which ties between them are settled. -/
def all : List TypeTag :=
  [boolean, string, list, map, decimal, integer, void, range, error, any]

def name : TypeTag → String
  | boolean => "BOOLEAN"
  | string => "STRING"
  | list => "LIST"
  | map => "MAP"
  | decimal => "DECIMAL"
  | integer => "INTEGER"
  | void => "VOID"
  | range => "RANGE"
  | error => "ERROR"
  | any => "ANY"

/-- The place of a tag in `all`. -/
def rank (t : TypeTag) : Nat := all.idxOf t

/-- Whether some value can be cast to the type. -/
def isCastTarget : TypeTag → Bool
  | range | error | any => false
  | _ => true

/-- Whether a declaration as `expected` admits a value of type `actual`. -/
def accepts (expected actual : TypeTag) : Bool := expected == any || expected == actual

/-- Reads a name in any case, blanks around it ignored. -/
def ofText? (text : String) : Option TypeTag :=
  let upper := String.ofList ((Text.trim text.toList).map Char.toUpper)
  all.find? fun t => t.name == upper

theorem mem_all (t : TypeTag) : t ∈ all := by cases t <;> decide

@[simp] theorem accepts_self (t : TypeTag) : t.accepts t = true := by simp [accepts]

@[simp] theorem any_accepts (t : TypeTag) : any.accepts t = true := by simp [accepts]

end TypeTag
end ReactiveScript
