import ReactiveScript.ErrorKind
import ReactiveScript.Source.Excerpt

/-!
# Errors of an evaluation

An error has a kind, a message, the segment where it arose if that is known, and earlier errors
that it sums up. It is raised by an operation that fails, and it can be held as a value. The
functions below make the errors that the library itself raises; nothing else words a message.
-/

namespace ReactiveScript

structure EvalError where
  kind : ErrorKind
  message : String
  source : Option Segment
  causes : List EvalError
deriving Repr, Inhabited

namespace EvalError

/-- An error without source and causes. -/
def ofMessage (kind : ErrorKind) (message : String) : EvalError := ⟨kind, message, none, []⟩

/-- Attaches a known segment to an error that has none yet. -/
def withSource (e : EvalError) (segment : Segment) : EvalError :=
  if e.source.isNone && segment.isKnown then { e with source := some segment } else e

/-- Adds an earlier error as the last cause. -/
def withCause (e cause : EvalError) : EvalError := { e with causes := e.causes ++ [cause] }

def isFatal (e : EvalError) : Bool := e.kind.isFatal

/-- The name of the kind and the message. -/
def headline (e : EvalError) : String := e.kind.name ++ ": " ++ e.message

/-- The headline and the short excerpt of the source. -/
def display (e : EvalError) : String :=
  e.headline ++ (match e.source with
    | some segment => segment.shortMessage
    | none => "")

/-- The location and the long excerpt, if there is a source. -/
def sourceReport (e : EvalError) : String :=
  match e.source with
  | none => ""
  | some segment =>
    (match segment.location? with
      | some location => " at " ++ location.text
      | none => "") ++ segment.message

/-- The full report: headline, location, excerpt and the texts of the causes. -/
def report (e : EvalError) : String :=
  e.headline ++ e.sourceReport ++
    String.join (e.causes.map fun cause => "\ncaused by " ++ cause.display)

@[simp] theorem withSource_kind (e : EvalError) (s : Segment) : (e.withSource s).kind = e.kind := by
  unfold withSource; split <;> rfl

@[simp] theorem withSource_message (e : EvalError) (s : Segment) :
    (e.withSource s).message = e.message := by
  unfold withSource; split <;> rfl

@[simp] theorem withSource_causes (e : EvalError) (s : Segment) :
    (e.withSource s).causes = e.causes := by
  unfold withSource; split <;> rfl

@[simp] theorem withSource_isFatal (e : EvalError) (s : Segment) :
    (e.withSource s).isFatal = e.isFatal := by
  simp [isFatal]

def invalidCast (source target : String) : EvalError :=
  ofMessage .invalidCast ("cannot cast " ++ source ++ " to " ++ target)

def invalidMapOperation (operation operand : String) : EvalError :=
  ofMessage .invalidMapOperation
    ("cannot apply '" ++ operation ++ "' to a map and " ++ operand)

def typeMismatch (operation left right : String) : EvalError :=
  ofMessage .typeMismatch
    ("'" ++ operation ++ "' is not defined for " ++ left ++ " and " ++ right)

def declaredTypeMismatch (name expected actual : String) : EvalError :=
  ofMessage .typeMismatch
    ("'" ++ name ++ "' is declared " ++ expected ++ " but was assigned " ++ actual)

def variableNotFound (name : String) : EvalError :=
  ofMessage .variableNotFound ("variable '" ++ name ++ "' not found")

def reservedName (name : String) : EvalError :=
  ofMessage .reservedName ("'" ++ name ++ "' is a builtin and cannot be assigned")

def immutableVariable (name : String) : EvalError :=
  ofMessage .immutableVariable ("cannot re-assign const variable '" ++ name ++ "'")

def constraintViolation (name fingerprint : String) : EvalError :=
  ofMessage .constraintViolation
    ("value of '" ++ name ++ "' violates constraint (" ++ fingerprint ++ ")")

def recursionLimitExceeded (limit : Nat) : EvalError :=
  ofMessage .recursionLimitExceeded
    ("maximum recursion depth of " ++ Text.ofNat limit ++ " exceeded")

def parseError (message : String) : EvalError := ofMessage .parseError message

def exception (message : String) : EvalError := ofMessage .exception message

def scopeStackCorrupted (detail : String) : EvalError := ofMessage .scopeStackCorrupted detail

end EvalError
end ReactiveScript
