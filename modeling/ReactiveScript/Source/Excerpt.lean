import ReactiveScript.Source.Lines

/-!
# Excerpts

Messages show the segment between two arrows, with up to forty characters of its line on each side
and its location. The long form takes several lines, the short form one.
-/

namespace ReactiveScript

/-- Where a segment starts: the file, the line from one and the column from zero. -/
structure Location where
  file : Option String
  line : Nat
  column : Nat
deriving DecidableEq, Repr

/-- The file with line and column in parentheses. -/
def Location.text (l : Location) : String :=
  l.file.getD "<script>" ++ "(" ++ Text.ofNat l.line ++ ":" ++ Text.ofNat l.column ++ ")"

namespace Excerpt

/-- The characters of context kept on each side of the token. -/
def contextWidth : Nat := 40

/-- The most characters of a token that are shown in full. -/
def tokenWidth : Nat := 2 * contextWidth

/-- The last `n` elements. -/
def lastChars (n : Nat) (cs : List Char) : List Char := cs.drop (cs.length - n)

/-- A long token is cut and marked with an ellipsis. -/
def boundedToken (cs : List Char) : List Char :=
  if cs.length ≤ tokenWidth then cs else cs.take tokenWidth ++ ['…']

/-- The pieces of an excerpt. -/
structure Parts where
  before : List Char
  token : List Char
  after : List Char
  location : Location

/-- The characters between two offsets, or none where the cut falls inside a character. -/
def between (cs : List Char) (start stop : Nat) : List Char := (Text.slice? cs start stop).getD []

end Excerpt

namespace Segment

open Excerpt

/-- The location of a segment that is known. -/
def location? (s : Segment) : Option Location :=
  if s.isKnown then
    s.source.map fun source =>
      ⟨source.file, Source.lineOfOffset source.chars s.span.start,
        Source.columnOfOffset source.chars s.span.start⟩
  else none

/-- The context and the token of a segment that is known. -/
def excerpt? (s : Segment) : Option Parts := do
  let location ← s.location?
  let source ← s.source
  let cs := source.chars
  let lineStart := (Source.lineStart? cs location.line).getD 0
  let lineEnd := Source.lineEnd cs (max s.span.stop s.span.start)
  pure {
    before := lastChars contextWidth (between cs lineStart s.span.start)
    token := boundedToken s.chars
    after := (between cs s.span.stop (max lineEnd s.span.stop)).take contextWidth
    location }

/-- The nonempty lines of a token joined by blanks. -/
def joinLines (cs : List Char) : List Char :=
  [' '].intercalate ((cs.splitOn '\n').filter (!·.isEmpty))

/-- A token whose later lines are indented. -/
def indentLines (cs : List Char) : List Char :=
  cs.flatMap fun c => if c = '\n' then '\n' :: List.replicate 4 ' ' else [c]

/-- The form of several lines that ends a report. -/
def message (s : Segment) : String :=
  match s.excerpt? with
  | none => "<unknown location>"
  | some p =>
    "\n    " ++ String.ofList p.before ++ " → " ++ String.ofList (indentLines p.token) ++ " ← " ++
      String.ofList p.after ++ "\n\nsee " ++ p.location.text ++ "\n"

/-- The form of one line that follows an error's text. -/
def shortMessage (s : Segment) : String :=
  match s.excerpt? with
  | none => "<unknown location>"
  | some p =>
    " " ++ String.ofList p.before ++ " → " ++ String.ofList (joinLines p.token) ++ " ← " ++
      String.ofList p.after ++ " " ++ p.location.text

end Segment
end ReactiveScript
