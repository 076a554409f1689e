import ReactiveScript.OrderedMap

/-!
# Metadata

What rides along with a value without being part of it: named texts, and one slot each for an
integer and for a text.
-/

namespace ReactiveScript

structure Metadata where
  texts : OrderedMap String := []
  integer : Option Int64 := none
  note : Option String := none
deriving DecidableEq, Repr, Inhabited

namespace Metadata

/-- The key of the source text of the constraint that a value was checked against. -/
def constraintFingerprint : String := "constraint_fingerprint"

/-- The key of the name of the parameter that a value was passed as. -/
def parameterName : String := "parameter_name"

def find? (m : Metadata) (key : String) : Option String := m.texts.find? key

def set (m : Metadata) (key value : String) : Metadata :=
  { m with texts := m.texts.insert key value }

def isEmpty (m : Metadata) : Bool := m.texts.isEmpty && m.integer.isNone && m.note.isNone

/-- Everything in `other` written over `m`. -/
def extend (m other : Metadata) : Metadata where
  texts := m.texts.merged other.texts
  integer := other.integer.or m.integer
  note := other.note.or m.note

end Metadata
end ReactiveScript
