import ReactiveScript.Text.Numeral

/-!
# Names of variables

A variable is named by a text. Positional parameters are variables whose names are numerals.
-/

namespace ReactiveScript.VariableName

/-- The name of a positional parameter, counted from one. -/
def positional (n : Nat) : String := Text.ofNat n

/-- Whether a name consists of ASCII digits only. -/
def isPositional (name : String) : Bool := !name.isEmpty && name.toList.all Char.isDigit

/-- The name as scripts write a reference to it. -/
def reference (name : String) : String := "$" ++ name

end ReactiveScript.VariableName
