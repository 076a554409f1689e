import ReactiveScript.Decimal.Basic

/-!
# Settings

What can be tuned for one runtime. A mode supplies the defaults; every field can be set apart.
Times are in milliseconds and take no part in the evaluation itself.
-/

namespace ReactiveScript

inductive Mode
  | interpret
  | test
deriving DecidableEq, Repr, Inhabited

def Mode.name : Mode → String
  | interpret => "Interpret"
  | test => "Test"

def Mode.ofName? (text : String) : Option Mode :=
  [Mode.interpret, Mode.test].find? fun m => m.name == text

structure Settings where
  mode : Mode
  /-- The most executions of nodes that may be under way at once. -/
  maxRecursionDepth : Nat
  /-- The depth to which an assignment forces its right-hand side. -/
  assignmentFixDepth : Nat
  /-- The share of observations below which a declared type is reported as unlikely. -/
  typeWarningThreshold : Decimal
  /-- Whether the children of containers are forced independently of each other. -/
  parallel : Bool
  /-- Whether a script stops at its first failure. -/
  failFast : Bool
  pollInterval : Nat
  blockingTimeout : Nat
deriving DecidableEq, Repr

namespace Settings

/-- The defaults of a mode. -/
def forMode (mode : Mode) : Settings where
  mode := mode
  maxRecursionDepth := 100
  assignmentFixDepth := 2
  typeWarningThreshold := ⟨false, 1022 * Decimal.binade, by decide⟩
  parallel := false
  failFast := true
  pollInterval := match mode with
    | .interpret => 100
    | .test => 5
  blockingTimeout := match mode with
    | .interpret => 10000
    | .test => 200

def default : Settings := forMode .interpret

instance : Inhabited Settings := ⟨default⟩

end Settings

/-- The names that every runtime keeps for itself. -/
def reservedNames : List String :=
  ["it", "previous", "true", "false", "void", "infinity", "print", "out", "err", "debug", "fix",
    "sleep", "random", "date", "time"]

end ReactiveScript
