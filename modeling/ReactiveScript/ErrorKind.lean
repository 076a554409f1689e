/-!
# Kinds of failure

Each kind has a stable code, whose first digit names the layer it belongs to, and the name that
scripts see. Two kinds are fatal: no error handler sees them.
-/

namespace ReactiveScript

inductive ErrorKind
  | invalidCast
  | invalidMapOperation
  | typeMismatch
  | variableNotFound
  | reservedName
  | immutableVariable
  | constraintViolation
  | recursionLimitExceeded
  | parseError
  | exception
  | scopeStackCorrupted
deriving DecidableEq, Repr, Inhabited

namespace ErrorKind

def all : List ErrorKind :=
  [invalidCast, invalidMapOperation, typeMismatch, variableNotFound, reservedName,
    immutableVariable, constraintViolation, recursionLimitExceeded, parseError, exception,
    scopeStackCorrupted]

/-- The code of four digits. -/
def code : ErrorKind → String
  | invalidCast => "D1001"
  | invalidMapOperation => "D1002"
  | typeMismatch => "D1003"
  | variableNotFound => "D2001"
  | reservedName => "D2002"
  | immutableVariable => "D2003"
  | constraintViolation => "D2004"
  | recursionLimitExceeded => "D3001"
  | parseError => "D4001"
  | exception => "D4002"
  | scopeStackCorrupted => "D9001"

/-- The name that scripts see. -/
def name : ErrorKind → String
  | invalidCast => "INVALID_CAST"
  | invalidMapOperation => "INVALID_MAP_OPERATION"
  | typeMismatch => "TYPE_MISMATCH"
  | variableNotFound => "VARIABLE_NOT_FOUND"
  | reservedName => "RESERVED_NAME"
  | immutableVariable => "IMMUTABLE_VARIABLE"
  | constraintViolation => "CONSTRAINT_VIOLATION"
  | recursionLimitExceeded => "RECURSION_LIMIT_EXCEEDED"
  | parseError => "PARSE_ERROR"
  | exception => "EXCEPTION"
  | scopeStackCorrupted => "SCOPE_STACK_CORRUPTED"

/-- Fatal failures go past every error handler. -/
def isFatal : ErrorKind → Bool
  | recursionLimitExceeded | scopeStackCorrupted => true
  | _ => false

def ofName? (text : String) : Option ErrorKind := all.find? fun k => k.name == text

theorem mem_all (k : ErrorKind) : k ∈ all := by cases k <;> decide

end ErrorKind
end ReactiveScript
